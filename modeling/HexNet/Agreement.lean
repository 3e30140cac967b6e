/-
Frames agree end to end: what a connection writes into a packet is what a
connection of the other side reads from it, frame by frame.

A packet's messages rise along each channel (`writeFrames_rising`), so a
receiver within reach of them all resolves each (`Awaiting`), and its control
frames are ones the other side may receive (`Peers`). `frames_agree` puts the
two together, for every packet a poll builds.
-/
import HexNet.Outcomes
import HexNet.Peers

namespace HexNet

open Connection (OwnOps LawfulRole)

def Ack.Outgoing.isEliciting {P : Type} : Ack.Outgoing P → Bool
  | .ackOnly => false
  | .eliciting _ => true

/-! ## Ids rise along a packet -/

/-- Of two messages of one channel, the first has the smaller id. -/
def MessageKey.Before (k k' : MessageKey) : Prop := k.channel = k'.channel → k.id.toNat < k'.id.toNat

namespace Channels

/-- Along each channel, the pending messages' ids rise. -/
def Rising (c : Channels) : Prop := (c.pending.items.map Pending.key).Pairwise MessageKey.Before

theorem Rising.shrinks {c c' : Channels} (h : c.Rising) (hs : c.Shrinks c') : c'.Rising := by
  unfold Rising at h ⊢
  rw [← map_fst_queue] at h ⊢
  exact h.sublist (hs.sublist.map Prod.fst)

theorem Rising.send {c : Channels} (hintact : c.Intact) (h : c.Rising) {channel : Nat} {bytes : List UInt8}
    (hnext : ∀ m ∈ c.pending.items, m.channel = channel → m.id.toNat < (c.nextIds channel).toNat) :
    (c.send channel bytes).1.Rising := by
  cases hsend : c.send channel bytes with
  | mk c' r =>
    cases r with
    | error e =>
      rw [send_error hintact hsend]
      exact h
    | ok u =>
      obtain ⟨ref, hitems, -⟩ := send_ok hintact hsend
      unfold Rising
      rw [hitems, List.map_append, List.pairwise_append]
      refine ⟨h, by simp, fun k hk k' hk' => ?_⟩
      obtain ⟨m, hm, rfl⟩ := List.mem_map.1 hk
      obtain rfl := List.mem_singleton.1 hk'
      exact hnext m hm

/-- What is staged rises, and is before whatever still waits. -/
structure InTurn (s : Filling) : Prop where
  pending : (s.pending.items.map Pending.key).Pairwise MessageKey.Before
  staged : (s.staged.items.map Written.key).Pairwise MessageKey.Before
  waiting : ∀ x ∈ s.staged.items, ∀ m ∈ s.pending.items, m.inFlight = false → x.key.Before m.key

/-- Staging a channel's first waiting message keeps the order. -/
theorem InTurn.step {set : ChannelSet} {arena : Arena arenaBlocks} {limit start : Nat} {s s' : Filling}
    (h : InTurn s) (hstep : FillStep set arena limit start s s') : InTurn s' := by
  cases hstep with
  | undo => exact ⟨h.pending, h.staged, h.waiting⟩
  | @stage channel kind m w hkind hfind hfull hrun hlimit =>
    obtain ⟨hitems, -⟩ := FixedVec.push_of_not_full hfull ⟨channel, m.id, kind.isReliable⟩
    have hm := List.mem_of_find?_eq_some hfind
    obtain ⟨hp, before, after, hsplit, hbefore⟩ := List.find?_eq_some_iff_append.1 hfind
    obtain ⟨hchan, hunsent⟩ : m.channel = channel ∧ m.inFlight = false := by simpa using hp
    have hkey : (⟨channel, m.id, kind.isReliable⟩ : Written).key = m.key := by rw [Pending.key, hchan]; rfl
    have hmarked : (s.pending.modifyFirst (fun m => m.channel == channel && !m.inFlight)
        fun m => { m with inFlight := true }).items = before ++ { m with inFlight := true } :: after := by
      show s.pending.items.modifyFirst _ _ = _
      rw [hsplit]
      exact List.modifyFirst_append (p := fun m => m.channel == channel && !m.inFlight) _
        (fun b hb => by simpa only [Bool.not_eq_true'] using hbefore b hb) hp after
    have hpending := h.pending
    rw [hsplit, List.map_append, List.map_cons] at hpending
    refine ⟨?_, ?_, ?_⟩
    · rw [hmarked, List.map_append, List.map_cons]
      exact hpending
    · rw [hitems, List.map_append, List.pairwise_append]
      refine ⟨h.staged, by simp, fun k hk k' hk' => ?_⟩
      obtain ⟨x, hx, rfl⟩ := List.mem_map.1 hk
      obtain rfl := List.mem_singleton.1 hk'
      rw [hkey]
      exact h.waiting x hx m hm hunsent
    · -- whatever still waits on the channel comes after the first that did
      intro x hx m' hm' hwait
      have hlist : m' ∈ before ∨ m' ∈ after := by
        rw [hmarked] at hm'
        rcases List.mem_append.1 hm' with hm' | hm'
        · exact .inl hm'
        · rcases List.mem_cons.1 hm' with rfl | hm'
          · cases hwait
          · exact .inr hm'
      have hold : m' ∈ s.pending.items := by
        rw [hsplit]
        rcases hlist with hm' | hm' <;> simp [hm']
      rw [hitems] at hx
      rcases List.mem_append.1 hx with hx | hx
      · exact h.waiting x hx m' hold hwait
      · rw [List.mem_singleton.1 hx, hkey]
        intro hsame
        rcases hlist with hm' | hm'
        · have hnot := hbefore m' hm'
          have hsame : m'.channel = channel := hsame.symm.trans hchan
          simp [hsame, hwait] at hnot
        · have hafter := List.pairwise_cons.1 (List.pairwise_append.1 hpending).2.1
          exact hafter.1 m'.key (List.mem_map.2 ⟨m', hm', rfl⟩) hsame

/-- **A packet's messages rise along each channel.** -/
theorem writeFrames_rising {c : Channels} (h : c.Rising) (w : BitWriter) (limit : Nat) :
    ((c.writeFrames w .empty limit).2.2.1.items.map Written.key).Pairwise MessageKey.Before := by
  have hstart : InTurn ⟨c.pending, w, .empty, false⟩ := ⟨h, by simp, by simp⟩
  exact (fillChannels_rule (fun s s' hs hstep => InTurn.step hs hstep) _ hstart).staged

def pendingPayload (c : Channels) (key : MessageKey) : List UInt8 :=
  ((c.pending.items.find? fun m => m.key == key).bind fun m => c.sendArena.load m.bytes maxMessage).getD []

theorem Rising.keyed {c : Channels} (h : c.Rising) : c.Keyed :=
  h.imp fun hbefore heq => by simp [MessageKey.Before, heq] at hbefore

/-- The queue holds one message a key, and so one payload. -/
theorem pendingPayload_eq {c : Channels} (h : c.Keyed) {key : MessageKey} {bytes : ByteRef}
    (hmem : (key, bytes) ∈ queue c.pending.items) : c.pendingPayload key = c.contents (key, bytes) := by
  obtain ⟨m, hm, rfl, rfl⟩ := mem_queue.1 hmem
  cases hfind : c.pending.items.find? fun x => x.key == m.key with
  | none => simpa using List.find?_eq_none.1 hfind m hm
  | some x =>
    have hx : x.key = m.key := by simpa using List.find?_some hfind
    obtain rfl := h.unique (List.mem_of_find?_eq_some hfind) hm hx
    rw [pendingPayload, hfind]
    rfl

end Channels

namespace Connection

variable {R R' : Type}

/-- A send takes an id above those pending on its channel, as it does while the
channel's ids have not passed `2 ^ 32`. -/
def IdsRise [OwnOps R] (c : Connection R) : Call R → Prop
  | .send channel _ => ∀ m ∈ c.channels.pending.items, m.channel = channel →
      m.id.toNat < (c.channels.nextIds channel).toNat
  | _ => True

instance [OwnOps R] (c : Connection R) (call : Call R) : Decidable (c.IdsRise call) := by
  cases call <;> (unfold IdsRise; infer_instance)

theorem reach_rising [Role R] [LawfulRole R] [OwnOps R] {c : Connection R} (h : Lts.Reach (sys R) IdsRise c) :
    c.channels.Rising := by
  refine Lts.Reach.invariant (P := fun c => c.channels.Rising) ?_ ?_ h
  · rintro _ ⟨now, id, addr, tx, rx, set, transport, owed, role, -, rfl⟩
    simp [Channels.Rising, new, Channels.new]
  · rintro c call _ hreach hc hok rfl
    have hdoes := after_does c call
    have hside : ∀ {c₁ c₂ : Connection R}, c₁.channels.Rising → c₁.Passive c₂ → c₂.channels.Rising := fun h₁ hp => by
      obtain ⟨-, -, hpending, -⟩ := hp.sending
      rw [Channels.Rising, hpending]
      exact h₁
    generalize c.after call = c' at hdoes
    cases hdoes with
    | passive hp => exact hside hc hp
    | sent channel payload => exact hc.send (reach_intact hreach) hok
    | acked ack ackDelay bits _ hp => exact hside (hc.shrinks (ledger_settles c _).1.toShrinks) hp
    | timedOut hp => exact hside (hc.shrinks (ledger_settles c _).1.toShrinks) hp
    | polled now out => exact hc.shrinks (pollTransmit_shrinks (reach_intact hreach) now out)

/-! ## The packet a poll builds -/

/-- The body of the packet. -/
def bodyBuilt (c : Connection R) (now : Timestamp) (out : Packet) : List UInt8 :=
  Channels.packetBytes ((c.assessed now).filling now out).2.1

/-- The messages it carries. -/
def carried (c : Connection R) (now : Timestamp) (out : Packet) : List Message :=
  ((c.assessed now).filling now out).2.2.1.items.map (Written.message c.channels.pendingPayload)

/-- The frames written into it: all control frames owed, then its messages. -/
def framesWritten (c : Connection R) (now : Timestamp) (out : Packet) : List Frame :=
  c.controlFrames.map .control ++ (c.carried now out).map fun m => .message (m.frame c.channels.set)

/-- What the ledger is told of it. -/
def outgoing (c : Connection R) (now : Timestamp) (out : Packet) : Ack.Outgoing PacketRecord :=
  let r := (c.assessed now).filling now out
  if r.2.2.2 then .eliciting (r.1.channels.onPacketSent r.2.2.1).2 else .ackOnly

/-- The messages staged, with their payloads, are the ones carried. -/
theorem Filled.carried {c : Connection R} {now : Timestamp} {out : Packet} {len : Nat} {filled : Channels}
    {staged : PacketMessages} {new : List (Written × ByteRef)} {w : BitWriter} {eliciting : Bool}
    (h : ((c.assessed now).prepared now).Filled len filled staged new w) (hkeyed : c.channels.Keyed)
    (hfill : (c.assessed now).filling now out = ((c.assessed now).filledWith now filled, w, staged, eliciting)) :
    new.map (Written.entryMessage ((c.assessed now).prepared now).channels.contents) = c.carried now out := by
  have hstaged : staged.items = new.map Prod.fst := by simpa using h.carrying.staged_eq
  have hqueue : Channels.queue ((c.assessed now).prepared now).channels.pending.items =
      Channels.queue c.channels.pending.items := requeued_queue (c.assessed now)
  have harena : ((c.assessed now).prepared now).channels.sendArena = c.channels.sendArena := by
    show (c.assessed now).requeued.sendArena = _
    unfold requeued
    split <;> rfl
  rw [Connection.carried, hfill]
  show _ = staged.items.map _
  rw [hstaged, List.map_map]
  refine List.map_congr_left fun x hx => ?_
  have hmem := (h.carrying.queued x hx).1
  rw [hqueue] at hmem
  have hpayload := Channels.pendingPayload_eq hkeyed hmem
  simp only [Function.comp, Written.message, Written.entryMessage, hpayload, Channels.contents, harena]

theorem Filled.wired {c : Connection R} {now : Timestamp} {len : Nat} {filled : Channels} {staged : PacketMessages}
    {new : List (Written × ByteRef)} {w : BitWriter}
    (h : ((c.assessed now).prepared now).Filled len filled staged new w) (hintact : c.channels.Intact) :
    ∀ m ∈ new.map (Written.entryMessage ((c.assessed now).prepared now).channels.contents),
      Channels.Wired c.channels.set m := by
  intro m hm
  obtain ⟨x, hx, rfl⟩ := List.mem_map.1 hm
  obtain ⟨hqueued, kind, hkind, -⟩ := h.carrying.queued x hx
  obtain ⟨p, hp, hkey, hbytes⟩ := Channels.mem_queue.1 hqueued
  have hlen := (((requeued_settles (c.assessed now)).intact hintact).wired p hp).2
  rw [hkey, hbytes] at hlen
  have hset : ((c.assessed now).prepared now).channels.set = c.channels.set :=
    (requeued_settles (c.assessed now)).set_eq
  rw [hset] at hkind
  exact ⟨Option.isSome_iff_exists.2 ⟨kind, hkind⟩, hlen⟩

theorem fillPacket_rising {c : Connection R} (h : c.channels.Rising) (allowance headerLen : Nat) (w : BitWriter) :
    ((c.fillPacket allowance headerLen w).2.2.1.items.map Written.key).Pairwise MessageKey.Before := by
  have hsame : (c.writeControl w).1.channels = c.channels := by
    unfold writeControl writePing
    dsimp only
    split
    · split <;> rfl
    · rfl
  unfold fillPacket writeData
  dsimp only
  split
  · exact Channels.writeFrames_rising (by rw [hsame]; exact h) _ _
  · simp

/-- What a poll that builds a packet did. -/
theorem pollTransmit_some {c : Connection R} (h : c.channels.Intact) {now : Timestamp} {out : Packet}
    {datagram : List UInt8} (hpoll : (c.pollTransmit now out).2 = some datagram) :
    (∃ sealed, c.crypto.tx.inner.encrypt (c.crypto.tx.nonce c.crypto.nextSequence) (c.buildHeader now).bytes
        (c.bodyBuilt now out) = some sealed ∧ datagram = (c.buildHeader now).bytes ++ (sealed.1 ++ sealed.2)) ∧
      (c.pollTransmit now out).1.delivery = (c.delivery.onSent now c.crypto.nextSequence (c.outgoing now out)).1 := by
  obtain ⟨filled, staged, new, w, hfill, hfilled⟩ := filling_filled (c := c.assessed now) h now out
  have hbuild := buildPacket_eq hfill
  have hbody : c.bodyBuilt now out = Channels.packetBytes w := by rw [bodyBuilt, hfill]
  have houtgoing : c.outgoing now out =
      if (c.assessed now).elicits new then .eliciting (filled.onPacketSent staged).2 else .ackOnly := by
    rw [outgoing, hfill]
    rfl
  rw [hbody, houtgoing]
  unfold pollTransmit at hpoll ⊢
  dsimp only at hpoll ⊢
  split at hpoll
  next hdue =>
    rw [if_pos hdue]
    rw [hbuild] at hpoll ⊢
    split at hpoll
    · cases hpoll
    next hsome =>
      rw [if_neg hsome]
      obtain ⟨sealed, hsealed, hseal⟩ := sealPacket_spec ((c.assessed now).filledWith now filled) now
        ((c.assessed now).buildHeader now) out hfilled.carrying.holds hfilled.carrying.len_eq staged
        ((c.assessed now).elicits new)
      rw [hseal] at hpoll ⊢
      refine ⟨⟨sealed, hsealed, (Option.some.inj hpoll).symm⟩, ?_⟩
      rw [transmitted, (noticeSent_same _).2.1]
      rfl
  · cases hpoll

/-- Whatever the peer resolves a packet's ids to, the control frames it sees are
ones the sender owed. -/
theorem bodyBuilt_controls [Role R] [LawfulRole R] [OwnOps R] [Role R'] [FrameReader R'] [Peer R R']
    {ok : Connection R → Call R → Prop} {c : Connection R} (h : Lts.Reach (sys R) ok c)
    {peer : Connection R'} (hset : peer.channels.set = c.channels.set) {now now' : Timestamp} {out : Packet}
    {f : ControlFrame} (hf : .control f ∈ peer.bodySeen now' (c.bodyBuilt now out)) : f ∈ c.controlFrames := by
  have hintact := reach_intact h
  obtain ⟨filled, staged, new, w, hfill, hfilled⟩ := filling_filled (c := c.assessed now) hintact now out
  have hprepared : ((c.assessed now).prepared now).channels.set = peer.channels.set :=
    (requeued_settles (c.assessed now)).set_eq.trans hset.symm
  have hholds := hfilled.carrying.holds
  rw [hprepared] at hholds
  have hbody : c.bodyBuilt now out = Channels.packetBytes w := by rw [bodyBuilt, hfill]
  rw [hbody] at hf
  exact bodySeen_controls now' hholds (reach_proper h).receivable (by rw [hset]; exact hfilled.wired hintact) hf

variable [Role R] [LawfulRole R] [OwnOps R] [FrameReader R] [Role R'] [LawfulRole R'] [OwnOps R'] [FrameReader R']

/-- **Frames agree end to end**: of every packet a poll builds, a peer of the
other side whose references are within reach of the ids carried sees exactly
the frames written, in their order, and takes the packet for eliciting where
the sender's ledger does. -/
theorem frames_agree [Peer R R'] [Peer R' R] {c : Connection R} (h : Lts.Reach (sys R) IdsRise c) {now : Timestamp}
    {out : Packet} {datagram : List UInt8} (hpoll : (c.pollTransmit now out).2 = some datagram) :
    (∃ sealed, c.crypto.tx.inner.encrypt (c.crypto.tx.nonce c.crypto.nextSequence) (c.buildHeader now).bytes
        (c.bodyBuilt now out) = some sealed ∧ datagram = (c.buildHeader now).bytes ++ (sealed.1 ++ sealed.2)) ∧
      (c.pollTransmit now out).1.delivery = (c.delivery.onSent now c.crypto.nextSequence (c.outgoing now out)).1 ∧
      ∀ (peer : Connection R') (now' : Timestamp), Lts.Reachable (sys R') peer →
        peer.channels.set = c.channels.set →
        (∀ m ∈ c.carried now out, peer.channels.Near m.channel m.id) →
        (∀ held ∈ peer.channels.held.items, held.id.toNat + 1 < 2 ^ 32) →
        peer.bodySeen now' (c.bodyBuilt now out) = c.framesWritten now out ∧
          (peer.readBody now' (c.bodyBuilt now out)).2.2 = .ok (c.outgoing now out).isEliciting := by
  have hintact := reach_intact h
  have hrising := reach_rising h
  obtain ⟨hsealed, hdelivery⟩ := pollTransmit_some hintact hpoll
  refine ⟨hsealed, hdelivery, fun peer now' hpeer hset hnear hcounts => ?_⟩
  obtain ⟨filled, staged, new, w, hfill, hfilled⟩ := filling_filled (c := c.assessed now) hintact now out
  have hcarried := hfilled.carried hrising.keyed hfill
  have hprepared : ((c.assessed now).prepared now).channels.set = c.channels.set :=
    (requeued_settles (c.assessed now)).set_eq
  have hholds := hfilled.carrying.holds
  rw [hcarried, hprepared, ← hset] at hholds
  have hmessages : (c.carried now out).isEmpty = new.isEmpty := by rw [← hcarried]; cases new <;> rfl
  have hstaged : (c.carried now out).map Message.key = staged.items.map Written.key := by
    rw [carried, hfill, List.map_map]
    rfl
  have hwired : ∀ m ∈ c.carried now out, Channels.Wired peer.channels.set m := by
    rw [← hcarried, hset]
    exact hfilled.wired hintact
  have hawaits : peer.channels.Awaits (c.carried now out) := by
    refine ⟨(reach_proper hpeer).started, hnear, ?_, fun m _ => fun held hheld _ => hcounts held hheld⟩
    have hpairs := fillPacket_rising (c := (c.assessed now).prepared now)
      (hrising.shrinks (requeued_settles (c.assessed now)).toShrinks)
      ((c.assessed now).budget.available now).2 (((c.assessed now).buildHeader now).encode out.bytes).2
      (bodyWriter (((c.assessed now).buildHeader now).encode out.bytes).1
        (((c.assessed now).buildHeader now).encode out.bytes).2)
    have hpairs : (((c.assessed now).filling now out).2.2.1.items.map Written.key).Pairwise MessageKey.Before := hpairs
    rw [hfill, ← hstaged, List.pairwise_map] at hpairs
    exact hpairs
  obtain ⟨hseen, hread⟩ := readBody_agrees now' hholds (reach_proper h).receivable hwired hawaits
  have hbody : c.bodyBuilt now out = Channels.packetBytes w := by rw [bodyBuilt, hfill]
  rw [hbody, hseen, hread, framesWritten, hset]
  refine ⟨rfl, ?_⟩
  have helicits : (!((c.assessed now).prepared now).controlFrames.isEmpty || !new.isEmpty) =
      (c.assessed now).elicits new := rfl
  rw [outgoing, hfill, hmessages, helicits]
  dsimp only
  cases (c.assessed now).elicits new <;> rfl

/-! ## A server's first packet -/

def twoKinds : ChannelSet := ⟨[.reliableOrdered, .unreliable], by decide⟩

/-- A server that has just accepted a session. -/
def accepting : Connection Server :=
  .accept .zero 0 0 ⟨List.replicate nonceLen 0, TicketId.length_zeros⟩ (.v4 0 0) .clear .clear twoKinds .default

theorem accepting_reach : Lts.Reach (sys Server) IdsRise accepting :=
  .start ⟨.zero, 0, .v4 0 0, .clear, .clear, twoKinds, .default, { Owed.none with accepted := true },
    ⟨0, ⟨List.replicate nonceLen 0, by simp⟩, none⟩, ⟨rfl, rfl⟩, rfl⟩

/-- Its client, which has heard nothing. -/
def listening : Connection Client := .connect .zero 0 (.v4 0 0) .clear .clear twoKinds .default

theorem listening_reachable : Lts.Reachable (sys Client) listening :=
  .start ⟨.zero, 0, .v4 0 0, .clear, .clear, twoKinds, .default, .none, ⟨.none⟩, ⟨rfl, rfl⟩, rfl⟩

theorem listening_near {channel : Nat} {id : MessageId} (h : id.toNat ≤ 32767) :
    listening.channels.Near channel id := fun kind _ _ => by
  have hfirst : listening.channels.reference channel kind = .first := by cases kind <;> rfl
  rw [hfirst]
  exact ⟨Nat.le_trans h (Nat.le_add_left _ _), Nat.zero_le _⟩

set_option maxRecDepth 10000 in
/-- The client sees the acceptance, a ticket and two messages. -/
theorem frames_agree_accepting :
    ∃ c : Connection Server, Lts.Reach (sys Server) IdsRise c ∧ (c.framesWritten .zero blank).length = 4 ∧
      listening.bodySeen .zero (c.bodyBuilt .zero blank) = c.framesWritten .zero blank ∧
      (listening.readBody .zero (c.bodyBuilt .zero blank)).2.2 = .ok (c.outgoing .zero blank).isEliciting := by
  obtain ⟨c, hreach, hsome, hlen, hsmall, hkinds⟩ := Lts.Reach.evaluates (M := sys Server)
    (fun _ _ _ hs => (Option.some.inj hs).symm) accepting_reach
    [.own (ServerOp.sendResumeTicket ⟨[7, 8], by decide⟩), .send 0 [1, 2], .send 1 [3]]
    (fun c => (c.pollTransmit .zero blank).2.isSome = true ∧ (c.framesWritten .zero blank).length = 4 ∧
      (∀ m ∈ c.carried .zero blank, m.id.toNat ≤ 32767) ∧ twoKinds.kinds = c.channels.set.kinds)
    (by decide +kernel)
  have hset : listening.channels.set = c.channels.set := by
    show twoKinds = c.channels.set
    cases hs : c.channels.set with
    | mk kinds le =>
      rw [hs] at hkinds
      obtain rfl : twoKinds.kinds = kinds := hkinds
      rfl
  obtain ⟨datagram, hpoll⟩ := Option.isSome_iff_exists.1 hsome
  obtain ⟨-, -, hagree⟩ := frames_agree hreach hpoll
  exact ⟨c, hreach, hlen, hagree listening .zero listening_reachable hset
    (fun m hm => listening_near (hsmall m hm)) fun held hheld => by cases hheld⟩

end Connection
end HexNet
