/-
Two connections and the network between them.

Each side makes whatever calls it likes, at whatever times; a datagram that
opens on one side was sealed by the other, which is what the cipher is for, but
the network may lose, repeat, delay and reorder them, and deliver anything that
does not open. Beside each connection stand logs of what passed its interface:
what the application sent and was handed, what was sealed, opened and read.

One direction is argued at a time. `Joined` is what every run keeps of it: the
receiver opens what the sender sealed, once, under its number (`Numbering`);
and reading a packet's body is receiving its messages one after another,
whatever their ids resolve to (`readBody_receives`). `Duplex.swap` is the other
direction.
-/
import HexNet.Agreement
import HexNet.Answering
import HexNet.Identity

namespace HexNet

open BitFields
open Connection (OwnOps LawfulRole Marked Call)

/-! ## Reading a body is receiving its messages -/

namespace Connection

section

variable {R : Type} [Role R] [FrameReader R]

/-- Control frames leave the channels alone and deliver nothing. -/
theorem handleFrames_controls (now : Timestamp) (fs : List ControlFrame) (c : Connection R) :
    (handleFrames now (fs.map .control) c).1.channels = c.channels ∧ (handleFrames now (fs.map .control) c).2 = [] := by
  induction fs generalizing c with
  | nil => exact ⟨rfl, rfl⟩
  | cons f fs ih =>
    obtain ⟨hchannels, hnone⟩ := ih (c.handleFrame now (.control f)).1
    simp only [List.map_cons, handleFrames, hchannels, hnone]
    exact ⟨FrameReader.act_channels c now f, rfl⟩

/-- What frames do to the channels depends on the channels alone. -/
theorem handleFrames_congr (now : Timestamp) (fs : List Frame) {c c' : Connection R} (h : c.channels = c'.channels) :
    (handleFrames now fs c).1.channels = (handleFrames now fs c').1.channels ∧
      (handleFrames now fs c).2 = (handleFrames now fs c').2 := by
  induction fs generalizing c c' with
  | nil => exact ⟨h, rfl⟩
  | cons f fs ih =>
    have hone : (c.handleFrame now f).1.channels = (c'.handleFrame now f).1.channels ∧
        (c.handleFrame now f).2 = (c'.handleFrame now f).2 := by
      cases f with
      | control f => exact ⟨by simpa [handleFrame, FrameReader.act_channels] using h, rfl⟩
      | message f => simp [handleFrame, h]
    obtain ⟨hchannels, hout⟩ := ih hone.1
    exact ⟨hchannels, by simp only [handleFrames, hout, hone.2]⟩

/-- Messages written are received one after another, up to the first whose id
resolves to none. -/
theorem seen_receives (now : Timestamp) (fuel : Nat) {ms : List Message} {c : Connection R} {r : BitReader}
    {tail : List (Nat × Nat)} (hwired : ∀ m ∈ ms, Channels.Wired c.channels.set m)
    (hsees : r.Sees (Channels.framesFields c.channels.set r.bitsRead ms ++ tail))
    (hend : Channels.EndsPacket r.buffer (r.bitsRead + width (Channels.framesFields c.channels.set r.bitsRead ms))
      tail) :
    (handleFrames now (seen now (ms.length + (fuel + 1)) c r).1 c).1.channels = (c.channels.receiveAll ms).1 ∧
      (handleFrames now (seen now (ms.length + (fuel + 1)) c r).1 c).2 = (c.channels.receiveAll ms).2.1 := by
  induction ms generalizing c r with
  | nil =>
    rw [List.length_nil, Nat.zero_add, seen_end now fuel hsees (by simpa [Channels.framesFields] using hend)]
    exact ⟨rfl, rfl⟩
  | cons m ms ih =>
    obtain ⟨kind, hkind, ⟨hresolve, hseen⟩ | ⟨id, frame, r₁, c₁, hresolve, -, hact, hc₁, hset, hsees₁, hend₁, hseen⟩⟩ :=
      seen_message now (ms.length + (fuel + 1)) (hwired m (by simp)) hsees hend
    · have hreceive : c.channels.receive m = none := by simp [Channels.receive, hkind, hresolve]
      rw [List.length_cons, Nat.add_right_comm, hseen, Channels.receiveAll, hreceive]
      exact ⟨rfl, rfl⟩
    · have hreceive : c.channels.receive m = some (c.channels.dispatch m.channel kind id m.payload) := by
        simp [Channels.receive, hkind, hresolve]
      obtain ⟨hchannels, hout⟩ := ih (fun m' hm' => by rw [hset]; exact hwired m' (by simp [hm'])) hsees₁ hend₁
      rw [List.length_cons, Nat.add_right_comm, hseen, Channels.receiveAll, hreceive]
      simp only [handleFrames, hact, hchannels, hout, hc₁, and_self]

/-- **A body that was written is received message by message**: whatever its
ids resolve to, what reading it does to the channels and delivers is what its
messages do, received in the order they were written. -/
theorem readBody_receives (now : Timestamp) {c : Connection R} {fs : List ControlFrame} {ms : List Message}
    {w : BitWriter}
    (hw : w.Holds (controlFields 0 fs ++ Channels.framesFields c.channels.set (width (controlFields 0 fs)) ms))
    (hfs : ∀ f ∈ fs, FrameReader.Receivable R f) (hwired : ∀ m ∈ ms, Channels.Wired c.channels.set m) :
    (c.readBody now (Channels.packetBytes w)).1.channels = (c.channels.receiveAll ms).1 ∧
      (c.readBody now (Channels.packetBytes w)).2.1 = (c.channels.receiveAll ms).2.1 := by
  obtain ⟨c', r, fuel, tail, hchannels, hsees, hend, hseen⟩ := seen_body now hw hfs
  obtain ⟨hafter, hout⟩ := seen_receives now fuel (by rwa [hchannels]) hsees hend
  obtain ⟨hcontrol, hnone⟩ := handleFrames_controls now fs c
  obtain ⟨hsame, hsameOut⟩ := handleFrames_congr now (seen now (ms.length + (fuel + 1)) c' r).1
    (hcontrol.trans hchannels.symm)
  rw [readBody, readFrames_seen, hseen]
  simp only [handleFrames_append, hnone, List.nil_append, hsame, hsameOut, hafter, hout, hchannels, and_self]

end

end Connection

/-! ## What calls leave of the receiving half -/

namespace Connection

variable {R : Type}

theorem pollTransmit_replay {c : Connection R} (h : c.channels.Intact) (now : Timestamp) (out : Packet) :
    (c.pollTransmit now out).1.crypto.replay = c.crypto.replay := by
  rcases pollTransmit_cases h now out with ⟨-, heq⟩ | ⟨-, hbuilds⟩
  · rw [heq]
    rfl
  · generalize c.pollTransmit now out = r at hbuilds
    cases hbuilds with
    | aborted => rfl
    | built =>
      rw [transmitted_crypto]
      rfl

theorem close_channels (c : Connection R) (reason : CloseReason) : (c.close reason).channels = c.channels := by
  unfold close
  split <;> rfl

section

variable [Role R] [LawfulRole R]

theorem received_channels (c : Connection R) (now : Timestamp) (sender : SocketAddr) (opened : Decrypted)
    (eliciting : Bool) : (c.received now sender opened eliciting).channels = c.channels :=
  received_rule (P := (·.channels = c.channels)) rfl rfl
    (fun h => (LawfulRole.onAddressChange ..).channels_eq.trans h) eliciting

theorem handleTimeout_recvSide (c : Connection R) (now : Timestamp) :
    (c.handleTimeout now).channels.recvSide = c.channels.recvSide := by
  unfold handleTimeout
  split
  · rfl
  · split
    · rfl
    · rw [runTimers, (LawfulRole.onTimeout ..).channels_eq]
      split <;> exact ledger_recvSide ..

/-- What an opened packet leaves of the channels is what its body does, past
its acknowledgement. -/
theorem handleOpened_reads (c : Connection R) (now : Timestamp) (sender : SocketAddr) (opened : Decrypted) :
    (c.handleOpened now sender opened).1.channels =
        ((c.handleAck now opened.header).readBody now opened.body).1.channels ∧
      (c.handleOpened now sender opened).2.1 =
        ((c.handleAck now opened.header).readBody now opened.body).2.1 := by
  unfold handleOpened
  dsimp only
  split
  · exact ⟨close_channels .., rfl⟩
  · exact ⟨received_channels .., rfl⟩

/-- Reading leaves the window as opening it left it. -/
theorem handleOpened_replay (c : Connection R) (now : Timestamp) (sender : SocketAddr) (opened : Decrypted) :
    (c.handleOpened now sender opened).1.crypto.replay = c.crypto.replay := by
  have hread := (handleAck_sameOwed c now opened.header).trans
    (readFrames_sameOwed now (8 * opened.body.length + 1) (c.handleAck now opened.header) (.new opened.body) false)
  unfold handleOpened readBody
  dsimp only
  split
  · rw [(close_sameOwed _ _).replay_eq, hread.replay_eq]
  · exact received_rule (P := (·.crypto.replay = c.crypto.replay)) hread.replay_eq hread.replay_eq
      (fun h => by rw [(LawfulRole.onAddressChange ..).crypto_eq, h]) _

end

/-! ## What passes a connection's interface -/

section

variable [OwnOps R]

/-- What a call opens. -/
def opens (c : Connection R) : Call R → Option (PacketCrypto × Decrypted)
  | .handleDatagram _ _ datagram => if c.lifecycle = .closed then none else (c.crypto.decrypt datagram).toOption
  | _ => none

/-- The messages in the packet a call seals. -/
def carries (c : Connection R) : Call R → List Message
  | .pollTransmit now out => c.carried now out
  | _ => []

/-- The message a call accepts from the application. -/
def takes (c : Connection R) : Call R → Option Message
  | .send channel payload =>
    match (c.send channel payload).2 with
    | .ok () => some ⟨channel, c.channels.nextIds channel, payload⟩
    | .error _ => none
  | _ => none

variable [Role R]

/-- The messages a call hands to the application. -/
def hands (c : Connection R) : Call R → List Message
  | .handleDatagram now sender datagram => (c.handleDatagram now sender datagram).2.1
  | _ => []

variable [LawfulRole R]

omit [LawfulRole R] in
/-- A datagram that does not open changes nothing. -/
theorem opens_none {c : Connection R} {now : Timestamp} {sender : SocketAddr} {datagram : List UInt8}
    (hopen : c.opens (.handleDatagram now sender datagram) = none) :
    (c.handleDatagram now sender datagram).1 = c ∧ (c.handleDatagram now sender datagram).2.1 = [] := by
  rw [opens] at hopen
  unfold handleDatagram
  split
  · exact ⟨rfl, rfl⟩
  next hlive =>
    rw [if_neg hlive] at hopen
    split
    · exact ⟨rfl, rfl⟩
    next hdec => rw [hdec] at hopen; cases hopen

omit [LawfulRole R] in
/-- What opens is a datagram's packet, and is handled. -/
theorem opens_some {c : Connection R} {call : Call R} {crypto : PacketCrypto} {opened : Decrypted}
    (hopen : c.opens call = some (crypto, opened)) :
    ∃ now sender datagram, call = .handleDatagram now sender datagram ∧ c.crypto.decrypt datagram = .ok (crypto, opened) ∧
      c.handleDatagram now sender datagram = { c with crypto, lastReceived := now }.handleOpened now sender opened := by
  cases call with
  | handleDatagram now sender datagram =>
    rw [opens] at hopen
    split at hopen
    · cases hopen
    next hlive =>
      cases hdec : c.crypto.decrypt datagram with
      | error e => rw [hdec] at hopen; cases hopen
      | ok r =>
        rw [hdec] at hopen
        obtain rfl := Option.some.inj hopen
        exact ⟨now, sender, datagram, rfl, hdec, by rw [handleDatagram, if_neg hlive, hdec]⟩
  | _ => cases hopen

/-- A call that opens nothing leaves the receiving half alone. -/
theorem after_unopened {c : Connection R} (h : c.channels.Intact) {call : Call R} (hopen : c.opens call = none) :
    (c.after call).channels.recvSide = c.channels.recvSide ∧ c.hands call = [] ∧
      (c.after call).crypto.replay = c.crypto.replay := by
  cases call with
  | send channel payload => exact ⟨Channels.send_recvSide .., rfl, rfl⟩
  | close reason => exact ⟨congrArg _ (close_channels c reason), rfl, (close_sameOwed c reason).replay_eq⟩
  | pollEvent => exact ⟨rfl, rfl, rfl⟩
  | own op => exact ⟨congrArg _ (OwnOps.touched op c).channels_eq, rfl, (OwnOps.touched op c).sameOwed.replay_eq⟩
  | handleTimeout now => exact ⟨handleTimeout_recvSide c now, rfl, (handleTimeout_sameOwed c now).replay_eq⟩
  | pollTransmit now out => exact ⟨pollTransmit_recvSide h now out, rfl, pollTransmit_replay h now out⟩
  | handleDatagram now sender datagram =>
    obtain ⟨hsame, hnone⟩ := opens_none hopen
    rw [after, hands, hsame, hnone]
    exact ⟨rfl, rfl, rfl⟩

/-- A call that opens a packet reads its body, past its acknowledgement. -/
theorem after_opened {c : Connection R} {call : Call R} {crypto : PacketCrypto} {opened : Decrypted}
    (hopen : c.opens call = some (crypto, opened)) :
    ∃ now sender datagram, call = .handleDatagram now sender datagram ∧
      c.crypto.decrypt datagram = .ok (crypto, opened) ∧ (c.after call).crypto.replay = crypto.replay ∧
      ∃ begun : Connection R, begun.channels.recvSide = c.channels.recvSide ∧
        (c.after call).channels = (begun.readBody now opened.body).1.channels ∧
        c.hands call = (begun.readBody now opened.body).2.1 := by
  obtain ⟨now, sender, datagram, rfl, hdec, hcall⟩ := opens_some hopen
  obtain ⟨hchannels, hout⟩ := handleOpened_reads { c with crypto, lastReceived := now } now sender opened
  rw [after, hands, hcall]
  exact ⟨now, sender, datagram, rfl, hdec, handleOpened_replay ..,
    { c with crypto, lastReceived := now }.handleAck now opened.header, handleAck_recvSide .., hchannels, hout⟩

end

end Connection

/-! ## The two sides -/

/-- A packet as it was sealed. -/
structure Parcel where
  number : Nat
  datagram : List UInt8
  /-- The messages in it. -/
  messages : List Message
  /-- The newest of the other side's packets it acknowledges. -/
  acks : Option Nat

/-- A connection, and the logs of what passed its interface. -/
structure Party (R : Type) where
  conn : Connection R
  sealed : List Parcel
  /-- What the application sent. -/
  sent : List Message
  /-- The numbers of the other side's packets it opened. -/
  opened : List Nat
  /-- Of these, the ones it read to their end and found worth acknowledging. -/
  read : List Nat
  /-- What the application was handed. -/
  delivered : List Message

namespace Party

variable {R : Type}

def fresh (conn : Connection R) : Party R := ⟨conn, [], [], [], [], []⟩

variable [Role R] [OwnOps R]

/-- The packet a call seals. -/
def parcel (p : Party R) (call : Call R) : Option Parcel :=
  (p.conn.emitted call).map fun datagram =>
    ⟨p.conn.crypto.nextSequence, datagram, p.conn.carries call, p.conn.crypto.acked.newest⟩

def after (p : Party R) (call : Call R) : Party R where
  conn := p.conn.after call
  sealed := p.sealed ++ (p.parcel call).toList
  sent := p.sent ++ (p.conn.takes call).toList
  opened := p.opened ++ ((p.conn.opens call).map fun o => o.2.sequence).toList
  read := p.read ++ ((p.conn.accepts call).map Prod.fst).toList
  delivered := p.delivered ++ p.conn.hands call

/-- A datagram that opens is one of `sealed`: nobody else has the key. -/
def Trusts (p : Party R) (sealed : List Parcel) : Call R → Prop
  | .handleDatagram now sender datagram =>
    (p.conn.opens (.handleDatagram now sender datagram)).isSome = true → datagram ∈ sealed.map Parcel.datagram
  | _ => True

instance (p : Party R) (sealed : List Parcel) : DecidablePred (p.Trusts sealed)
  | .handleDatagram now sender datagram => inferInstanceAs (Decidable
      ((p.conn.opens (.handleDatagram now sender datagram)).isSome = true → datagram ∈ sealed.map Parcel.datagram))
  | .send .. | .pollTransmit .. | .handleTimeout _ | .close _ | .pollEvent | .own _ => inferInstanceAs (Decidable True)

end Party

structure Duplex (R R' : Type) where
  left : Party R
  right : Party R'

inductive DuplexOp (R R' : Type) [OwnOps R] [OwnOps R']
  | left (call : Call R)
  | right (call : Call R')

namespace Duplex

variable {R R' : Type} [Role R] [OwnOps R] [Role R'] [OwnOps R']

/-- A counter that would reach `2 ^ 64` stops the program. -/
def next (s : Duplex R R') : DuplexOp R R' → Option (Duplex R R')
  | .left call =>
    let left := s.left.after call
    if left.conn.crypto.nextSequence < 2 ^ 64 then some { s with left } else none
  | .right call =>
    let right := s.right.after call
    if right.conn.crypto.nextSequence < 2 ^ 64 then some { s with right } else none

theorem next_left {s s' : Duplex R R'} {call : Call R} (h : s.next (.left call) = some s') :
    s' = { s with left := s.left.after call } ∧ (s.left.conn.after call).crypto.nextSequence < 2 ^ 64 := by
  obtain ⟨hlt, hs⟩ := Option.ite_none_right_eq_some.1 h
  exact ⟨(Option.some.inj hs).symm, hlt⟩

theorem next_right {s s' : Duplex R R'} {call : Call R'} (h : s.next (.right call) = some s') :
    s' = { s with right := s.right.after call } ∧ (s.right.conn.after call).crypto.nextSequence < 2 ^ 64 := by
  obtain ⟨hlt, hs⟩ := Option.ite_none_right_eq_some.1 h
  exact ⟨(Option.some.inj hs).symm, hlt⟩

/-- Two connections of one id, that have exchanged keys and agreed on their
channels: `up` is the left side's key, `down` the right's. -/
def sys (R R' : Type) [Role R] [OwnOps R] [Role R'] [OwnOps R'] (up down : Aead) (set : ChannelSet) :
    Lts.Sys (Duplex R R') (DuplexOp R R') where
  start s := ∃ id now addr transport owed role now' addr' transport' owed' role',
    OwnOps.Fresh owed role ∧ OwnOps.Fresh owed' role' ∧
    s = ⟨.fresh (.new now id addr up down set transport owed role),
      .fresh (.new now' id addr' down up set transport' owed' role')⟩
  step s op s' := s.next op = some s'

/-- What opens is genuine. -/
def Genuine (s : Duplex R R') : DuplexOp R R' → Prop
  | .left call => s.left.Trusts s.right.sealed call
  | .right call => s.right.Trusts s.left.sealed call

instance (s : Duplex R R') : DecidablePred s.Genuine
  | .left call => inferInstanceAs (Decidable (s.left.Trusts s.right.sealed call))
  | .right call => inferInstanceAs (Decidable (s.right.Trusts s.left.sealed call))

/-! ### The other direction -/

omit [Role R] [OwnOps R] [Role R'] [OwnOps R'] in
def swap (s : Duplex R R') : Duplex R' R := ⟨s.right, s.left⟩

omit [Role R] [Role R'] in
/-- A call, seen from the other direction. -/
def swapOp : DuplexOp R R' → DuplexOp R' R
  | .left call => .right call
  | .right call => .left call

/-- A run is one of the other direction. -/
theorem reach_swap {up down : Aead} {set : ChannelSet} {ok : Duplex R R' → DuplexOp R R' → Prop}
    {ok' : Duplex R' R → DuplexOp R' R → Prop} (hok : ∀ s op, ok s op → ok' s.swap (swapOp op)) {s : Duplex R R'}
    (h : Lts.Reach (sys R R' up down set) ok s) : Lts.Reach (sys R' R down up set) ok' s.swap := by
  induction h with
  | start h =>
    obtain ⟨id, now, addr, transport, owed, role, now', addr', transport', owed', role', hfresh, hfresh', rfl⟩ := h
    exact .start ⟨id, now', addr', transport', owed', role', now, addr, transport, owed, role, hfresh', hfresh, rfl⟩
  | @step s op s' _ hop hs ih =>
    refine .step ih (hok s op hop) ?_
    cases op with
    | left call =>
      obtain ⟨rfl, hlt⟩ := next_left hs
      exact if_pos hlt
    | right call =>
      obtain ⟨rfl, hlt⟩ := next_right hs
      exact if_pos hlt

omit [Role R] [Role R'] in
theorem genuine_swap (s : Duplex R R') (op : DuplexOp R R') (h : s.Genuine op) : s.swap.Genuine (swapOp op) := by
  cases op <;> exact h

/-! ### One direction -/

omit [Role R] [OwnOps R] [Role R'] [OwnOps R'] in
/-- The packets from the left to the right. -/
def oneWay (s : Duplex R R') : OneWay R :=
  ⟨s.left.conn, s.left.sealed.map fun p => (p.number, p.datagram), s.right.conn.crypto, s.right.opened⟩

/-- What a run keeps of the left side's packets and the right side's reading. -/
structure Joined (up : Aead) (set : ChannelSet) (s : Duplex R R') : Prop where
  numbered : s.oneWay.Numbered up
  receiver : Lts.Reachable (Connection.sys R') s.right.conn
  senderSet : s.left.conn.channels.set = set
  receiverSet : s.right.conn.channels.set = set
  /-- What the right opened is numbered as the left numbered it. -/
  opened : ∀ q ∈ s.right.opened, ∃ p ∈ s.left.sealed, p.number = q

section

variable [LawfulRole R] [LawfulRole R'] [Marked R'] {up down : Aead} {set : ChannelSet} {s s' : Duplex R R'}

omit [LawfulRole R] [LawfulRole R'] [Marked R'] in
theorem Joined.sender (h : s.Joined up set) : Lts.Reachable (Connection.sys R) s.left.conn := h.numbered.sender

omit [LawfulRole R] [LawfulRole R'] [Marked R'] in
/-- A packet's number is below the counter, which is below its end. -/
theorem Joined.number_lt (h : s.Joined up set) {p : Parcel} (hp : p ∈ s.left.sealed) :
    0 < p.number ∧ p.number < s.left.conn.crypto.nextSequence ∧ p.number < 2 ^ 64 := by
  have hmem : (p.number, p.datagram) ∈ s.oneWay.sealed := List.mem_map.2 ⟨p, hp, rfl⟩
  have hrange : p.number ∈ List.range' 1 s.oneWay.sealed.length := by
    rw [← h.numbered.numbers]
    exact List.mem_map.2 ⟨_, hmem, rfl⟩
  have hnext : s.left.conn.crypto.nextSequence = s.oneWay.sealed.length + 1 := h.numbered.next_eq
  rw [List.mem_range'_1] at hrange
  exact ⟨hrange.1, by omega, (h.numbered.bounds hmem).2⟩

omit [LawfulRole R'] [Marked R'] in
theorem Joined.left (h : s.Joined up set) {call : Call R} (hs : s.next (.left call) = some s') :
    s'.Joined up set := by
  obtain ⟨rfl, hlt⟩ := next_left hs
  have hway : s.oneWay.next (.call call) = some ({ s with left := s.left.after call } : Duplex R R').oneWay := by
    refine (if_pos hlt).trans ?_
    simp only [oneWay, Party.after, Party.parcel, List.map_append]
    cases s.left.conn.emitted call <;> rfl
  have hset := Connection.after_set (Connection.reach_intact h.sender) call
  refine ⟨h.numbered.call hway, h.receiver, hset.trans h.senderSet, h.receiverSet, fun q hq => ?_⟩
  obtain ⟨p, hp, hnumber⟩ := h.opened q hq
  exact ⟨p, List.mem_append_left _ hp, hnumber⟩

omit [LawfulRole R] [Marked R'] in
/-- What the right opens is a packet of the left's, under its number. -/
theorem Joined.opens (h : s.Joined up set) (hown : up.OpensOwn) {call : Call R'} (hgenuine : s.Genuine (.right call))
    {crypto : PacketCrypto} {opened : Decrypted} (hopen : s.right.conn.opens call = some (crypto, opened)) :
    ∃ p ∈ s.left.sealed, opened.sequence = p.number ∧ p.number ∉ s.right.opened ∧
      ∃ now sender, call = .handleDatagram now sender p.datagram ∧
        s.right.conn.crypto.decrypt p.datagram = .ok (crypto, opened) := by
  obtain ⟨now, sender, datagram, rfl, hdec, -⟩ := Connection.after_opened hopen
  obtain ⟨p, hp, rfl⟩ := List.mem_map.1 (hgenuine (by rw [hopen]; rfl))
  have hmem : (p.number, p.datagram) ∈ s.oneWay.sealed := List.mem_map.2 ⟨p, hp, rfl⟩
  have hown : s.oneWay.receiver.rx.inner.OpensOwn := by rw [h.numbered.rx_inner]; exact hown
  obtain ⟨hseq, hcheck, -⟩ := PacketCrypto.decrypt_sealed_ok hown (h.numbered.bounds hmem).2
    (h.numbered.sealed_rx hmem) hdec
  exact ⟨p, hp, hseq, ((h.numbered.remembers.check_iff _).1 hcheck).1, now, sender, rfl, hdec⟩

omit [LawfulRole R] in
theorem Joined.right (h : s.Joined up set) (hown : up.OpensOwn) {call : Call R'} (hgenuine : s.Genuine (.right call))
    (hs : s.next (.right call) = some s') : s'.Joined up set := by
  have hreach : Lts.Reachable (Connection.sys R') (s.right.conn.after call) := .step h.receiver trivial rfl
  have hintact := Connection.reach_intact h.receiver
  have hrx := (Connection.after_kept s.right.conn call).rx_eq
  have hset := (Connection.after_set hintact call).trans h.receiverSet
  obtain ⟨rfl, -⟩ := next_right hs
  refine ⟨?_, hreach, h.senderSet, hset, fun q hq => ?_⟩
  rotate_left
  · rcases List.mem_append.1 hq with hq | hq
    · exact h.opened q hq
    · obtain ⟨o, hopen, rfl⟩ := Option.map_eq_some_iff.1 (Option.mem_toList.1 hq)
      obtain ⟨p, hp, hseq, -⟩ := h.opens hown hgenuine hopen
      exact ⟨p, hp, hseq.symm⟩
  cases hopen : s.right.conn.opens call with
  | none =>
    obtain ⟨-, -, hreplay⟩ := Connection.after_unopened hintact hopen
    have hway : ({ s with right := s.right.after call } : Duplex R R').oneWay =
        { s.oneWay with receiver := (s.right.conn.after call).crypto } := by
      simp [oneWay, Party.after, hopen]
    rw [hway]
    exact h.numbered.receiver hrx hreplay
  | some o =>
    obtain ⟨crypto, opened⟩ := o
    obtain ⟨p, hp, hseq, -, now, sender, rfl, hdec⟩ := h.opens hown hgenuine hopen
    obtain ⟨-, -, -, -, -, hreplay, -⟩ := Connection.after_opened hopen
    have hdeliver := h.numbered.deliver hown (p := (p.number, p.datagram)) (List.mem_map.2 ⟨p, hp, rfl⟩)
    have hway : s.oneWay.deliver p.datagram =
        { s.oneWay with receiver := crypto, accepted := s.right.opened ++ [opened.sequence] } := by
      have hdec : s.oneWay.receiver.decrypt p.datagram = .ok (crypto, opened) := hdec
      rw [OneWay.deliver, hdec]
      rfl
    rw [hway] at hdeliver
    have hcrypto : crypto.rx = s.right.conn.crypto.rx := by rw [PacketCrypto.decrypt_replay hdec]
    have hnext : ({ s with right := s.right.after (.handleDatagram now sender p.datagram) } : Duplex R R').oneWay =
        { s.oneWay with
          receiver := (s.right.conn.after (.handleDatagram now sender p.datagram)).crypto
          accepted := s.right.opened ++ [opened.sequence] } := by
      simp [oneWay, Party.after, hopen]
    rw [hnext]
    exact hdeliver.receiver (hrx.trans hcrypto.symm) hreplay

theorem reach_joined (hown : up.OpensOwn) {ok : Duplex R R' → DuplexOp R R' → Prop}
    (hok : ∀ s op, ok s op → s.Genuine op) (h : Lts.Reach (sys R R' up down set) ok s) : s.Joined up set := by
  refine Lts.Reach.invariant (P := Joined up set) ?_ ?_ h
  · rintro _ ⟨id, now, addr, transport, owed, role, now', addr', transport', owed', role', hfresh, hfresh', rfl⟩
    refine ⟨?_, .start ⟨now', id, addr', down, up, set, transport', owed', role', hfresh', rfl⟩, rfl, rfl,
      fun q hq => (by cases hq)⟩
    exact ⟨.start ⟨now, id, addr, up, down, set, transport, owed, role, hfresh, rfl⟩, rfl,
      show 1 < 2 ^ 64 by decide, rfl, by simp [oneWay, Party.fresh], rfl, rfl,
      ⟨fun _ _ => List.not_mem_nil, fun newest hn => by cases hn⟩, .nil⟩
  · intro s op s' _ hs hop hnext
    cases op with
    | left call => exact hs.left hnext
    | right call => exact hs.right hown (hok s _ hop) hnext

end

end Duplex

/-! ## What is in a packet -/

/-- A sealed packet is opened as it was sealed. -/
theorem PacketCrypto.decrypt_seals_ok {c c' : PacketCrypto} {seq : Nat} {datagram body : List UInt8} {header : Header}
    {sealed : List UInt8 × List UInt8} {opened : Decrypted} (hown : c.rx.inner.OpensOwn) (hlt : seq < 2 ^ 64)
    (h : c.rx.Seals seq datagram header body sealed) (hok : c.decrypt datagram = .ok (c', opened)) :
    opened.header = header ∧ opened.body = body := by
  obtain ⟨hseq, -, -⟩ := decrypt_sealed_ok hown hlt ⟨header, body, sealed, h⟩ hok
  rw [decrypt_sealed h] at hok
  split at hok
  · cases hok
  · split at hok
    · cases hok
    · split at hok
      · cases hok
      next plain hopen =>
        cases hok
        dsimp only at hseq
        subst hseq
        rw [c.rx.inner.decrypt_encrypt _ _ _ _ h.encrypt] at hopen
        exact ⟨rfl, (Option.some.inj hopen).symm⟩

/-- A packet is sealed under its number, its body the control frames `fs` and
then the messages `ms`, which the side `R'` may all receive. -/
structure Parcel.Written (R' : Type) [Role R'] [FrameReader R'] (p : Parcel) (cipher : Cipher) (set : ChannelSet)
    (header : Header) (fs : List ControlFrame) (ms : List Message) : Prop where
  seals : ∃ w sealed, cipher.Seals p.number p.datagram header (Channels.packetBytes w) sealed ∧
    w.Holds (controlFields 0 fs ++ Channels.framesFields set (width (controlFields 0 fs)) ms)
  receivable : ∀ f ∈ fs, FrameReader.Receivable R' f
  wired : ∀ m ∈ ms, Channels.Wired set m

namespace Connection

variable {R : Type}

theorem requeued_sendArena (c : Connection R) : c.requeued.sendArena = c.channels.sendArena := by
  unfold requeued
  split <;> rfl

/-- **The packet a call seals** carries every control frame owed and pending
messages, with the bytes they were sent with. -/
theorem emitted_written (R' : Type) [Role R] [LawfulRole R] [OwnOps R] [Role R'] [FrameReader R'] [Peer R R']
    {ok : Connection R → Call R → Prop} {c : Connection R} (h : Lts.Reach (sys R) ok c) {call : Call R}
    {datagram : List UInt8} (hemitted : c.emitted call = some datagram) (messages : List Message) (acks : Option Nat) :
    ∃ now out ms, call = .pollTransmit now out ∧
      (⟨c.crypto.nextSequence, datagram, messages, acks⟩ : Parcel).Written R' c.crypto.tx c.channels.set
        (c.buildHeader now) c.controlFrames ms ∧
      (∀ m ∈ ms, ∃ p ∈ c.channels.pending.items, p.key = m.key ∧ c.channels.contents (p.key, p.bytes) = m.payload) ∧
      (c.channels.Keyed → ms = c.carried now out) := by
  cases call with
  | pollTransmit now out =>
    have hintact := reach_intact h
    obtain ⟨⟨sealed, hsealed, hdatagram⟩, -⟩ := pollTransmit_some hintact hemitted
    obtain ⟨filled, staged, new, w, hfill, hfilled⟩ := filling_filled (c := c.assessed now) hintact now out
    have hbody : c.bodyBuilt now out = Channels.packetBytes w := by rw [bodyBuilt, hfill]
    rw [hbody] at hsealed
    obtain ⟨hplain, hkind, hseq⟩ := c.buildHeader_spec now
    have hholds := hfilled.carrying.holds
    rw [show ((c.assessed now).prepared now).channels.set = c.channels.set from
      (requeued_settles (c.assessed now)).set_eq] at hholds
    refine ⟨now, out, _, rfl, ⟨⟨w, sealed, ⟨hplain, hkind, hseq, hsealed, hdatagram⟩, hholds⟩,
      (reach_proper h).receivable, hfilled.wired hintact⟩, fun m hm => ?_, fun hkeyed => hfilled.carried hkeyed hfill⟩
    obtain ⟨x, hx, rfl⟩ := List.mem_map.1 hm
    have hqueued := (hfilled.carrying.queued x hx).1
    rw [show Channels.queue ((c.assessed now).prepared now).channels.pending.items =
      Channels.queue c.channels.pending.items from requeued_queue (c.assessed now)] at hqueued
    obtain ⟨p, hp, hkey, hbytes⟩ := Channels.mem_queue.1 hqueued
    refine ⟨p, hp, hkey, ?_⟩
    have harena : ((c.assessed now).prepared now).channels.sendArena = c.channels.sendArena :=
      requeued_sendArena (c.assessed now)
    rw [hkey, hbytes, Written.entryMessage, Channels.contents, Channels.contents, harena]
  | _ => cases hemitted

end Connection

namespace Duplex

variable {R R' : Type} [Role R] [OwnOps R] [Role R'] [OwnOps R'] [LawfulRole R'] [FrameReader R'] {up : Aead}
  {set : ChannelSet} {s : Duplex R R'}

/-- **What the right makes of a packet it opens**: the header the left wrote,
and the messages the left wrote, received one after another. -/
theorem Joined.receives (h : s.Joined up set) (hown : up.OpensOwn) {call : Call R'} {p : Parcel}
    (hp : p ∈ s.left.sealed) {now : Timestamp} {sender : SocketAddr} (hcall : call = .handleDatagram now sender p.datagram)
    {crypto : PacketCrypto} {opened : Decrypted} (hopen : s.right.conn.opens call = some (crypto, opened))
    {header : Header} {fs : List ControlFrame} {ms : List Message}
    (hwritten : p.Written R' s.left.conn.crypto.tx set header fs ms) :
    opened.header = header ∧ ∃ c : Channels, c.recvSide = s.right.conn.channels.recvSide ∧
      (s.right.conn.after call).channels = (c.receiveAll ms).1 ∧ s.right.conn.hands call = (c.receiveAll ms).2.1 := by
  obtain ⟨now', sender', datagram, hcall', hdec, -, begun, hside, hchannels, hout⟩ := Connection.after_opened hopen
  obtain ⟨w, sealed, hseals, hholds⟩ := hwritten.seals
  obtain rfl : p.datagram = datagram := by
    rw [hcall] at hcall'
    cases hcall'
    rfl
  have hmem : (p.number, p.datagram) ∈ s.oneWay.sealed := List.mem_map.2 ⟨p, hp, rfl⟩
  have hrx : s.right.conn.crypto.rx = s.left.conn.crypto.tx := h.numbered.rx_eq
  have hown : s.right.conn.crypto.rx.inner.OpensOwn := by
    rw [show s.right.conn.crypto.rx.inner = up from h.numbered.rx_inner]
    exact hown
  rw [← hrx] at hseals
  obtain ⟨hheader, hbody⟩ := PacketCrypto.decrypt_seals_ok hown (h.numbered.bounds hmem).2 hseals hdec
  have hset : begun.channels.set = set := (congrArg Prod.fst hside).trans h.receiverSet
  rw [hbody] at hchannels hout
  obtain ⟨hafter, hdelivered⟩ := Connection.readBody_receives now' (by rw [hset]; exact hholds) hwritten.receivable
    (by rw [hset]; exact hwritten.wired)
  exact ⟨hheader, begun.channels, hside, hchannels.trans hafter, hout.trans hdelivered⟩

/-! A server that has just accepted a session, and its client. -/

def opening : Duplex Server Client := ⟨.fresh Connection.accepting, .fresh Connection.listening⟩

theorem opening_reach (ok : Duplex Server Client → DuplexOp Server Client → Prop) :
    Lts.Reach (sys Server Client .clear .clear Connection.twoKinds) ok opening :=
  .start ⟨0, .zero, .v4 0 0, .default, { Owed.none with accepted := true },
    ⟨0, ⟨List.replicate nonceLen 0, TicketId.length_zeros⟩, none⟩, .zero, .v4 0 0, .default, .none, ⟨.none⟩, ⟨rfl, rfl⟩,
    ⟨rfl, rfl⟩, rfl⟩

/-- The packet the server seals once it has sent `[1, 2]` on its ordered channel. -/
def greeting : List UInt8 :=
  ((Connection.accepting.send 0 [1, 2]).1.pollTransmit .zero Connection.blank).2.getD []

end Duplex

end HexNet
