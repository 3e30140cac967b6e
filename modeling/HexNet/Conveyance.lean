/-
What two connections carry from one application to the other, kind by kind.

While no channel's ids wrap and each id that arrives is within reach of what
its channel has come to, a reader of whole packets is an `Inbox`, given each
message under the id it was sent with (`Kept.receiveAll`). So an ordered
channel has delivered a prefix of what was sent on it, a sequenced one a
sublist, an unordered one each message at most once. Messages of an unreliable
channel carry no ids: there it is that the sender puts each into one packet
(`Conveyed.gone`) and the receiver opens each packet once.
-/
import HexNet.Inbox
import HexNet.Integrity
import Mathlib.Data.List.Sort

namespace HexNet

open BitFields
open Connection (OwnOps LawfulRole Marked Call)

/-! ## A packet read is an inbox's frames -/

/-- Any fields can be the next thing a reader sees. -/
theorem BitReader.exists_sees (fs : List (Nat × Nat)) : ∃ r : BitReader, r.bitsRead = 0 ∧ r.Sees fs := by
  have hfits : width fs ≤ 8 * ((width fs + 7) / 8) := by omega
  refine ⟨.new (LeBytes.leBytes (pack fs) ((width fs + 7) / 8)), rfl, BitReader.new_ready _, ?_, ?_⟩
  · show 0 + width fs ≤ 8 * (LeBytes.leBytes (pack fs) ((width fs + 7) / 8)).length
    rwa [LeBytes.length_leBytes, Nat.zero_add]
  · have hsmall : pack fs < 256 ^ ((width fs + 7) / 8) := by
      refine (pack_lt fs).trans_le ?_
      rw [show 256 = 2 ^ 8 by decide, ← Nat.pow_mul]
      exact Nat.pow_le_pow_right (by decide) hfits
    show LeBytes.leNat (LeBytes.leBytes (pack fs) ((width fs + 7) / 8)) / 2 ^ 0 % 2 ^ width fs = pack fs
    rw [LeBytes.leNat_leBytes, Nat.mod_eq_of_lt hsmall, Nat.pow_zero, Nat.div_one, Nat.mod_eq_of_lt (pack_lt fs)]

/-- A message as a receiver knows it: a channel without ids gives each the first. -/
def Message.arriving (set : ChannelSet) (m : Message) : Message :=
  ⟨m.channel, if ((set.kind m.channel).getD .unreliable).needsId then m.id else .first, m.payload⟩

theorem Message.arriving_eq {set : ChannelSet} {m : Message} {kind : ChannelKind} (hkind : set.kind m.channel = some kind)
    (hneeds : kind.needsId = true) : m.arriving set = m := by
  rw [arriving, hkind, Option.getD_some, if_pos hneeds]

namespace Inbox

open Channels

variable {set : ChannelSet} {c c' : Channels} {arrived delivered : List Message}

/-- An inbox is about the receiving half. -/
theorem Kept.recvSide (h : Kept set ⟨c, arrived, delivered⟩) (hside : c'.recvSide = c.recvSide) :
    Kept set ⟨c', arrived, delivered⟩ := by
  obtain ⟨hset, hreceivers, hheld, harena⟩ := recvSide_eq hside
  obtain ⟨payload, hlog⟩ := h.ordered
  refine ⟨⟨payload, hset.trans hlog.set_eq, fun channel hk => ?_, ?_, ?_, ?_⟩, fun e he => ?_, h.genuine,
    fun channel kind hk => ?_⟩
  · dsimp only
    rw [hreceivers]
    exact hlog.ids channel hk
  · dsimp only
    rw [hheld, harena]
    exact hlog.owns
  · dsimp only
    rw [hheld]
    exact hlog.held
  · dsimp only
    rw [hheld]
    exact hlog.nodup
  · dsimp only at he ⊢
    rw [hheld] at he
    rw [hreceivers]
    exact h.settled e he
  · dsimp only
    rw [hreceivers]
    exact h.follows channel kind hk

/-- A message within reach is a frame given to the inbox under its own id. -/
theorem Kept.receive (h : Kept set ⟨c, arrived, delivered⟩) {m : Message} {kind : ChannelKind}
    (hkind : set.kind m.channel = some kind) (hlen : m.payload.length ≤ maxMessage) (hnear : c.Near m.channel m.id)
    (hwrap : kind = .reliableOrdered → (onChannel m.channel delivered).length < 2 ^ 32) :
    c.receive m = some (c.dispatch m.channel kind (m.arriving set).id m.payload) ∧
      Kept set ⟨(c.dispatch m.channel kind (m.arriving set).id m.payload).1, arrived ++ [m.arriving set],
        delivered ++ (c.dispatch m.channel kind (m.arriving set).id m.payload).2⟩ := by
  obtain ⟨payload, hlog⟩ := h.ordered
  have hset : c.set = set := hlog.set_eq
  have hkind' : c.kind m.channel = some kind := by rw [Channels.kind, hset]; exact hkind
  obtain ⟨id, hresolve, hid⟩ := resolveId_near hnear hkind'
  have harriving : (m.arriving set).id = id := by
    rw [Message.arriving, hkind, Option.getD_some]
    split
    next hneeds => exact (hid hneeds).symm
    next hnone =>
      rw [resolveId, if_neg hnone] at hresolve
      exact Option.some.inj hresolve
  have hreceive : c.receive m = some (c.dispatch m.channel kind (m.arriving set).id m.payload) := by
    simp [Channels.receive, hkind', hresolve, harriving]
  refine ⟨hreceive, ?_⟩
  obtain ⟨r, hpos, hsees⟩ := BitReader.exists_sees (bodyFields 0 kind (m.arriving set))
  have hwithin : Within ⟨c, arrived, delivered⟩ ⟨r, m.arriving set⟩ kind := by
    refine ⟨hkind', hlen, by dsimp only; rw [hpos]; exact hsees, fun hneeds => ?_, fun hneeds => ?_, fun hneeds => ?_,
      hwrap⟩
    · rw [Message.arriving_eq hkind hneeds]
      exact (hnear kind hkind' hneeds).1
    · rw [Message.arriving_eq hkind hneeds]
      exact (hnear kind hkind' hneeds).2
    · simp [Message.arriving, hkind, hneeds]
  have hframe : c.receive (m.arriving set) = some (c.dispatch m.channel kind (m.arriving set).id m.payload) := by
    cases hneeds : kind.needsId with
    | true => rw [Message.arriving_eq hkind hneeds, hreceive, Message.arriving_eq hkind hneeds]
    | false =>
      have hfirst : (m.arriving set).id = .first := by simp [Message.arriving, hkind, hneeds]
      have hchan : (m.arriving set).channel = m.channel := rfl
      have hpay : (m.arriving set).payload = m.payload := rfl
      simp [Channels.receive, hchan, hpay, hkind', resolveId, hneeds, hfirst]
  have hsees' := hsees
  rw [← List.append_nil (bodyFields _ _ _)] at hsees'
  obtain ⟨r', hrun, -⟩ := readMessage_parses (m := m.arriving set) 0 hkind' hlen hframe r [] hsees' hpos
  refine h.step ⟨kind, hwithin⟩ ?_
  rw [Inbox.next, hrun]

/-- An ordered channel has delivered no more than was sent on it. -/
theorem Kept.count_lt (h : Kept set ⟨c, arrived, delivered⟩) {sent : List Message} (hnum : Numbered set sent)
    (hsub : ∀ m ∈ arrived, set.kind m.channel = some .reliableOrdered → m ∈ sent) {channel : Nat}
    (hkind : set.kind channel = some .reliableOrdered) : (onChannel channel delivered).length < 2 ^ 32 := by
  obtain ⟨payload, hlog⟩ := h.ordered
  obtain ⟨hids, -⟩ := hlog.ids channel hkind
  refine Nat.lt_of_le_of_lt ?_ (hnum.lt channel)
  cases hlen : (onChannel channel delivered).length with
  | zero => exact Nat.zero_le _
  | succ n =>
    -- its last message has the id `n`
    have hmem : n ∈ (onChannel channel delivered).map (fun m => m.id.toNat) := by
      rw [hids, hlen]
      simp
    obtain ⟨m, hm, hid⟩ := List.mem_map.1 hmem
    obtain ⟨hm, hchan⟩ := mem_onChannel.1 hm
    have hlt := hnum.id_lt (hsub m (h.genuine m hm) (by rw [hchan]; exact hkind))
    rw [hchan] at hlt
    omega

/-- **A packet within reach** is received to its end, and the inbox was given
its messages. -/
theorem Kept.receiveAll {sent : List Message} (hnum : Numbered set sent) {ms : List Message}
    (h : Kept set ⟨c, arrived, delivered⟩) (hms : ∀ m ∈ ms, m ∈ sent) (hawaits : c.Awaits ms)
    (hsub : ∀ m ∈ arrived, set.kind m.channel = some .reliableOrdered → m ∈ sent) :
    Kept set ⟨(Channels.receiveAll ms c).1, arrived ++ ms.map (Message.arriving set),
        delivered ++ (Channels.receiveAll ms c).2.1⟩ ∧
      (Channels.receiveAll ms c).2.2 = true ∧
      ∀ channel, set.kind channel = some .unreliable →
        (onChannel channel (Channels.receiveAll ms c).2.1).map Message.payload =
          (onChannel channel ms).map Message.payload := by
  induction ms generalizing c arrived delivered with
  | nil => exact ⟨by simpa [Channels.receiveAll] using h, rfl, fun _ _ => rfl⟩
  | cons m ms ih =>
    obtain ⟨hsome, hlen⟩ := hnum.wired m (hms m (by simp))
    obtain ⟨kind, hkind⟩ := Option.isSome_iff_exists.1 hsome
    obtain ⟨payload, hlog⟩ := h.ordered
    have hset : c.set = set := hlog.set_eq
    have hkind' : c.kind m.channel = some kind := by rw [Channels.kind, hset]; exact hkind
    obtain ⟨hreceive, hkept⟩ := h.receive hkind hlen (hawaits.near m (by simp))
      fun hord => h.count_lt hnum hsub (by rw [hkind, hord])
    have hrest : (c.dispatch m.channel kind (m.arriving set).id m.payload).1.Awaits ms :=
      hawaits.dispatch hkind' fun hneeds => by rw [Message.arriving_eq hkind hneeds]
    obtain ⟨hall, hok, hplain⟩ := ih hkept (fun m' hm' => hms m' (by simp [hm'])) hrest (by
      intro m' hm' hord
      rcases List.mem_append.1 hm' with hm' | hm'
      · exact hsub m' hm' hord
      · obtain rfl := List.mem_singleton.1 hm'
        have hord : set.kind m.channel = some .reliableOrdered := hord
        rw [Message.arriving_eq hord rfl]
        exact hms m (by simp))
    rw [Channels.receiveAll, hreceive]
    refine ⟨by simpa [List.append_assoc] using hall, hok, fun channel hunreliable => ?_⟩
    dsimp only
    rw [onChannel_append, List.map_append, hplain channel hunreliable]
    have hown := (dispatch_own c m.channel kind (m.arriving set).id m.payload).2
    by_cases hc : m.channel = channel
    · subst hc
      obtain rfl : kind = .unreliable := Option.some.inj (hkind.symm.trans hunreliable)
      have hrun : c.dispatch m.channel .unreliable (m.arriving set).id m.payload =
          (c, [⟨m.channel, (m.arriving set).id, m.payload⟩]) := by
        rw [Channels.dispatch, classify]
        exact if_neg fun hcon => by cases hcon.1
      rw [hrun]
      simp [onChannel]
    · have hnil := onChannel_other hown (Ne.symm hc) []
      rw [List.nil_append] at hnil
      rw [hnil]
      simp [onChannel, hc]

end Inbox

/-! ## An unreliable message leaves the queue with its packet -/

namespace Channels

theorem Shrinks.gone {c c' : Channels} (hs : c.Shrinks c') {key : MessageKey}
    (h : ∀ m ∈ c.pending.items, m.key ≠ key) : ∀ m ∈ c'.pending.items, m.key ≠ key := by
  intro m hm hkey
  obtain ⟨m', hm', hsame⟩ := hs.kept m hm
  exact h m' hm' (hsame.trans hkey)

theorem foldl_commitOne_gone (l : List Written) (s : Channels × PacketRecord) (h : s.1.Keyed)
    (hroom : s.2.items.length + l.length ≤ maxMessagesPerPacket) :
    ∀ x ∈ l, x.reliable = false → ∀ m ∈ (l.foldl commitOne s).1.pending.items, m.key ≠ x.key := by
  induction l generalizing s with
  | nil => simp
  | cons y l ih =>
    intro x hx hrel
    rw [List.length_cons] at hroom
    rw [List.foldl_cons]
    have hone : s.1.Settles (commitOne s y).1 ∧ (commitOne s y).2.items.length ≤ s.2.items.length + 1 := by
      unfold commitOne
      split
      · obtain ⟨hitems, -⟩ := FixedVec.push_of_not_full
          (FixedVec.isFull_eq_false (v := s.2) (by omega)) y.key
        exact ⟨.refl _, by simp [hitems]⟩
      · exact ⟨releasePending_settles _ _, Nat.le_succ _⟩
    rcases List.mem_cons.1 hx with rfl | hx
    · have hgone : ∀ m ∈ (commitOne s x).1.pending.items, m.key ≠ x.key := by
        rw [commitOne, if_neg (by simp [hrel])]
        exact fun m hm => h.releasePending hm
      exact ((foldl_commitOne l (commitOne s x) (by omega)).1.toShrinks).gone hgone
    · exact ih (commitOne s y) (h.shrinks hone.1.toShrinks) (by omega) x hx hrel

theorem onPacketSent_gone {c : Channels} (h : c.Keyed) (staged : PacketMessages) :
    ∀ x ∈ staged.items, x.reliable = false → ∀ m ∈ (c.onPacketSent staged).1.pending.items, m.key ≠ x.key :=
  foldl_commitOne_gone staged.items (c, .empty) h (by simpa using staged.le)

end Channels

namespace Connection

variable {R : Type}

/-- What a poll that seals a packet filled it with, and left. -/
theorem pollTransmit_seals {c : Connection R} (h : c.channels.Intact) {now : Timestamp} {out : Packet}
    {datagram : List UInt8} (hpoll : (c.pollTransmit now out).2 = some datagram) :
    ∃ filled staged new w crypto len,
      (c.assessed now).filling now out = ((c.assessed now).filledWith now filled, w, staged, (c.assessed now).elicits new) ∧
      ((c.assessed now).prepared now).Filled ((c.assessed now).bodyLen now) filled staged new w ∧
      (c.pollTransmit now out).1 = ((c.assessed now).filledWith now filled).transmitted now crypto staged len
        ((c.assessed now).elicits new) := by
  obtain ⟨filled, staged, new, w, hfill, hfilled⟩ := filling_filled (c := c.assessed now) h now out
  have hbuild := buildPacket_eq hfill
  unfold pollTransmit at hpoll ⊢
  dsimp only at hpoll ⊢
  split at hpoll
  next hdue =>
    rw [if_pos hdue]
    rw [hbuild] at hpoll ⊢
    split at hpoll
    · cases hpoll
    next hsome =>
      rw [if_neg hsome]
      obtain ⟨sealed, -, hseal⟩ := sealPacket_spec ((c.assessed now).filledWith now filled) now
        ((c.assessed now).buildHeader now) out hfilled.carrying.holds hfilled.carrying.len_eq staged
        ((c.assessed now).elicits new)
      rw [hseal]
      exact ⟨filled, staged, new, w, _, _, hfill, hfilled, rfl⟩
  · cases hpoll

/-- A packet takes its unreliable messages out of the queue. -/
theorem pollTransmit_gone {c : Connection R} (h : c.channels.Intact) (hkeyed : c.channels.Keyed) {now : Timestamp}
    {out : Packet} {datagram : List UInt8} (hpoll : (c.pollTransmit now out).2 = some datagram) {m : Message}
    (hm : m ∈ c.carried now out) (hkind : c.channels.set.kind m.channel = some .unreliable) :
    ∀ q ∈ (c.pollTransmit now out).1.channels.pending.items, q.key ≠ m.key := by
  obtain ⟨filled, staged, new, w, crypto, len, hfill, hfilled, hafter⟩ := pollTransmit_seals h hpoll
  rw [carried, hfill] at hm
  obtain ⟨x, hx, rfl⟩ := List.mem_map.1 hm
  have hstaged : staged.items = new.map Prod.fst := by simpa using hfilled.carrying.staged_eq
  have hunreliable : x.reliable = false := by
    have hx : x ∈ staged.items := hx
    rw [hstaged] at hx
    obtain ⟨e, he, rfl⟩ := List.mem_map.1 hx
    obtain ⟨-, kind, hk, hrel⟩ := hfilled.carrying.queued e he
    rw [show ((c.assessed now).prepared now).channels.set = c.channels.set from
      (requeued_settles (c.assessed now)).set_eq] at hk
    rw [hrel, Option.some.inj (hk.symm.trans hkind)]
    rfl
  have hkeyed' : filled.Keyed :=
    hkeyed.shrinks ((requeued_settles (c.assessed now)).toShrinks.trans hfilled.shrinks)
  have hgone := Channels.onPacketSent_gone hkeyed' staged x hx hunreliable
  rw [hafter]
  exact (transmitted_commits ((c.assessed now).filledWith now filled) ..).toShrinks.gone hgone

/-- A packet's messages rise along each channel. -/
theorem carried_rising {c : Connection R} (h : c.channels.Rising) (now : Timestamp) (out : Packet) :
    (c.carried now out).Pairwise fun m m' => m.channel = m'.channel → m.id.toNat < m'.id.toNat := by
  have hpairs := fillPacket_rising (c := (c.assessed now).prepared now)
    (h.shrinks (requeued_settles (c.assessed now)).toShrinks)
    ((c.assessed now).budget.available now).2 (((c.assessed now).buildHeader now).encode out.bytes).2
    (bodyWriter (((c.assessed now).buildHeader now).encode out.bytes).1
      (((c.assessed now).buildHeader now).encode out.bytes).2)
  have hpairs : (((c.assessed now).filling now out).2.2.1.items.map Written.key).Pairwise MessageKey.Before := hpairs
  rw [carried, List.pairwise_map]
  rw [List.pairwise_map] at hpairs
  exact hpairs

end Connection

/-! ## The guard -/

instance (c : Channels) (channel : Nat) (id : MessageId) : Decidable (c.Near channel id) :=
  decidable_of_iff (∀ kind ∈ c.kind channel, kind.needsId = true →
      id.toNat ≤ (c.reference channel kind).toNat + 32767 ∧ (c.reference channel kind).toNat ≤ id.toNat + 32767)
    Iff.rfl

namespace Party

variable {R : Type} [OwnOps R]

/-- No channel is about to number its last message. -/
def NoWrap (p : Party R) : Call R → Prop
  | .send channel _ => (onChannel channel p.sent).length + 1 < 2 ^ 32
  | _ => True

/-- A packet of `sealed` that arrives has its ids within reach. -/
def Reaches (p : Party R) (sealed : List Parcel) : Call R → Prop
  | .handleDatagram _ _ datagram =>
    ∀ q ∈ sealed, q.datagram = datagram → ∀ m ∈ q.messages, p.conn.channels.Near m.channel m.id
  | _ => True

instance (p : Party R) : DecidablePred p.NoWrap
  | .send channel _ => inferInstanceAs (Decidable ((onChannel channel p.sent).length + 1 < 2 ^ 32))
  | .handleDatagram .. | .pollTransmit .. | .handleTimeout _ | .close _ | .pollEvent | .own _ =>
    inferInstanceAs (Decidable True)

instance (p : Party R) (sealed : List Parcel) : DecidablePred (p.Reaches sealed)
  | .handleDatagram _ _ datagram => inferInstanceAs (Decidable
      (∀ q ∈ sealed, q.datagram = datagram → ∀ m ∈ q.messages, p.conn.channels.Near m.channel m.id))
  | .send .. | .pollTransmit .. | .handleTimeout _ | .close _ | .pollEvent | .own _ => inferInstanceAs (Decidable True)

end Party

/-- What a channel's kind promises of what was delivered, against what was sent. -/
def ChannelKind.Promises : ChannelKind → List (List UInt8) → List (List UInt8) → Prop
  | .reliableOrdered, sent, delivered => delivered <+: sent
  | .unreliableSequenced, sent, delivered => delivered.Sublist sent
  | .reliableUnordered, sent, delivered | .unreliable, sent, delivered => delivered.Subperm sent

namespace Duplex

variable {R R' : Type} [Role R] [LawfulRole R] [OwnOps R] [Role R'] [LawfulRole R'] [OwnOps R'] [FrameReader R']

/-- What opens is genuine, and both sides keep pace. -/
def InPace (s : Duplex R R') (op : DuplexOp R R') : Prop :=
  s.Genuine op ∧
    match op with
    | .left call => s.left.NoWrap call ∧ s.left.Reaches s.right.sealed call
    | .right call => s.right.NoWrap call ∧ s.right.Reaches s.left.sealed call

instance (s : Duplex R R') : DecidablePred s.InPace
  | .left call => inferInstanceAs (Decidable
      (s.Genuine (.left call) ∧ s.left.NoWrap call ∧ s.left.Reaches s.right.sealed call))
  | .right call => inferInstanceAs (Decidable
      (s.Genuine (.right call) ∧ s.right.NoWrap call ∧ s.right.Reaches s.left.sealed call))

omit [Role R] [LawfulRole R] [Role R'] [LawfulRole R'] [FrameReader R'] in
theorem inPace_swap (s : Duplex R R') (op : DuplexOp R R') (h : s.InPace op) : s.swap.InPace (swapOp op) := by
  cases op <;> exact h

/-! ## The sender -/

omit [Role R] [LawfulRole R] [OwnOps R] [Role R'] [LawfulRole R'] [OwnOps R'] [FrameReader R'] in
/-- The channels of both sides, with the logs of one direction. -/
def link (s : Duplex R R') : Link :=
  ⟨s.left.conn.channels, s.right.conn.channels, [], s.left.sent, s.right.delivered, []⟩

/-- What a run keeps of the left side's queue and packets. -/
structure Dispatched (s : Duplex R R') (set : ChannelSet) : Prop where
  sound : s.link.Sound set
  rising : s.left.conn.channels.Rising
  written : ∀ p ∈ s.left.sealed, ∃ header fs, p.Written R' s.left.conn.crypto.tx set header fs p.messages
  sent : ∀ p ∈ s.left.sealed, ∀ m ∈ p.messages, m ∈ s.left.sent
  ordered : ∀ p ∈ s.left.sealed, p.messages.Pairwise fun m m' => m.channel = m'.channel → m.id.toNat < m'.id.toNat
  /-- An unreliable message that was put into a packet waits no more, -/
  gone : ∀ p ∈ s.left.sealed, ∀ m ∈ p.messages, set.kind m.channel = some .unreliable →
    ∀ q ∈ s.left.conn.channels.pending.items, q.key ≠ m.key
  /-- and so was put into one. -/
  apart : ∀ p ∈ s.left.sealed, ∀ q ∈ s.left.sealed, ∀ m ∈ p.messages, m ∈ q.messages →
    set.kind m.channel = some .unreliable → p.number = q.number

variable {up down : Aead} {set : ChannelSet} {s s' : Duplex R R'}

section

omit [Role R] [LawfulRole R] [OwnOps R] [LawfulRole R'] [OwnOps R']

theorem Dispatched.next_id (h : s.Dispatched set) {m : Pending} (hm : m ∈ s.left.conn.channels.pending.items) :
    m.id.toNat < (s.left.conn.channels.nextIds m.channel).toNat := by
  obtain ⟨x, hx, hkey⟩ := h.sound.queued m hm
  have hlt := h.sound.numbered.id_lt hx
  have hchan : x.channel = m.channel := congrArg MessageKey.channel hkey
  have hid : x.id = m.id := congrArg MessageKey.id hkey
  rw [hchan, hid] at hlt
  rw [show (s.left.conn.channels.nextIds m.channel).toNat = _ from h.sound.next m.channel]
  exact hlt

/-- A message the left accepts takes its channel's next number. -/
theorem Dispatched.send (h : s.Dispatched set) {channel : Nat} {payload : List UInt8} {left : Party R}
    (hwrap : (onChannel channel s.left.sent).length + 1 < 2 ^ 32)
    (hsend : s.left.conn.channels.send channel payload = (left.conn.channels, .ok ()))
    (hsent : left.sent = s.left.sent ++ [⟨channel, s.left.conn.channels.nextIds channel, payload⟩])
    (hsealed : left.sealed = s.left.sealed) (htx : left.conn.crypto.tx = s.left.conn.crypto.tx) :
    ({ s with left } : Duplex R R').Dispatched set := by
  have hsound := h.sound.send hwrap hsend
  have hmore : ∀ m ∈ s.left.sent, m ∈ left.sent := fun m hm => by rw [hsent]; exact List.mem_append_left _ hm
  have hrising : (s.left.conn.channels.send channel payload).1.Rising :=
    h.rising.send h.sound.stocked.intact fun m hm hchan => by rw [← hchan]; exact h.next_id hm
  rw [hsend] at hrising
  refine ⟨?_, hrising, by rw [hsealed, htx]; exact h.written, fun p hp m hm => hmore m (h.sent p (hsealed ▸ hp) m hm),
    by rw [hsealed]; exact h.ordered, fun p hp m hm hkind q hq => ?_, by rw [hsealed]; exact h.apart⟩
  · show Link.Sound set ⟨left.conn.channels, s.right.conn.channels, [], left.sent, s.right.delivered, []⟩
    rw [hsent]
    exact hsound
  · have hp : p ∈ s.left.sealed := hsealed ▸ hp
    obtain ⟨r, hitems, -⟩ := Channels.send_ok h.sound.stocked hsend
    rw [hitems] at hq
    rcases List.mem_append.1 hq with hq | hq
    · exact h.gone p hp m hm hkind q hq
    · -- its id is new
      rw [List.mem_singleton.1 hq]
      intro hkey
      have hlt := h.sound.numbered.id_lt (h.sent p hp m hm)
      have hchan : channel = m.channel := congrArg MessageKey.channel hkey
      have hid : s.left.conn.channels.nextIds channel = m.id := congrArg MessageKey.id hkey
      have hnext : (s.left.conn.channels.nextIds channel).toNat = (onChannel channel s.left.sent).length :=
        h.sound.next channel
      rw [← hchan, ← hid, hnext] at hlt
      exact absurd hlt (Nat.lt_irrefl _)

/-- Marks and releases leave the rest as it was. -/
theorem Dispatched.shrink (h : s.Dispatched set) {left : Party R}
    (hshrinks : s.left.conn.channels.Shrinks left.conn.channels) (hsent : left.sent = s.left.sent)
    (hsealed : left.sealed = s.left.sealed) (htx : left.conn.crypto.tx = s.left.conn.crypto.tx) :
    ({ s with left } : Duplex R R').Dispatched set := by
  refine ⟨?_, h.rising.shrinks hshrinks, by rw [hsealed, htx]; exact h.written, by rw [hsealed, hsent]; exact h.sent,
    by rw [hsealed]; exact h.ordered, ?_, by rw [hsealed]; exact h.apart⟩
  · show Link.Sound set ⟨left.conn.channels, s.right.conn.channels, [], left.sent, s.right.delivered, []⟩
    rw [hsent]
    exact h.sound.shrink hshrinks []
  · rw [hsealed]
    exact fun p hp m hm hkind => hshrinks.gone (h.gone p hp m hm hkind)

/-- A packet may be added that holds queued messages, in order, and leaves none
of the unreliable ones queued. -/
theorem Dispatched.seal (h : s.Dispatched set) {left : Party R} {p : Parcel}
    (hshrinks : s.left.conn.channels.Shrinks left.conn.channels) (hsent : left.sent = s.left.sent)
    (hsealed : left.sealed = s.left.sealed ++ [p]) (htx : left.conn.crypto.tx = s.left.conn.crypto.tx)
    (hwritten : ∃ header fs, p.Written R' s.left.conn.crypto.tx set header fs p.messages)
    (hqueued : ∀ m ∈ p.messages, m ∈ s.left.sent ∧ ∃ q ∈ s.left.conn.channels.pending.items, q.key = m.key)
    (hordered : p.messages.Pairwise fun m m' => m.channel = m'.channel → m.id.toNat < m'.id.toNat)
    (hgone : ∀ m ∈ p.messages, set.kind m.channel = some .unreliable →
      ∀ q ∈ left.conn.channels.pending.items, q.key ≠ m.key) :
    ({ s with left } : Duplex R R').Dispatched set := by
  -- no older packet has an unreliable message that was queued still
  have hnew : ∀ q ∈ s.left.sealed, ∀ m ∈ q.messages, m ∈ p.messages → set.kind m.channel ≠ some .unreliable := by
    intro q hq m hm hmp hkind
    obtain ⟨-, x, hx, hkey⟩ := hqueued m hmp
    exact h.gone q hq m hm hkind x hx hkey
  obtain ⟨hsound, hrising, hold, hsub, hpairs, hleft, -⟩ :
      ({ s with left := { left with sealed := s.left.sealed } } : Duplex R R').Dispatched set :=
    h.shrink hshrinks hsent rfl htx
  refine ⟨hsound, hrising, ?_, ?_, ?_, ?_, ?_⟩ <;> dsimp only at * <;> rw [hsealed]
  · exact List.forall_mem_append.2 ⟨hold, List.forall_mem_singleton.2 (by rw [htx]; exact hwritten)⟩
  · refine List.forall_mem_append.2 ⟨hsub, List.forall_mem_singleton.2 fun m hm => ?_⟩
    rw [hsent]
    exact (hqueued m hm).1
  · exact List.forall_mem_append.2 ⟨hpairs, List.forall_mem_singleton.2 hordered⟩
  · exact List.forall_mem_append.2 ⟨hleft, List.forall_mem_singleton.2 hgone⟩
  · intro q hq q' hq' m hm hm' hkind
    rcases List.mem_append.1 hq with hq | hq
    · rcases List.mem_append.1 hq' with hq' | hq'
      · exact h.apart q hq q' hq' m hm hm' hkind
      · rw [List.mem_singleton.1 hq'] at hm'
        exact absurd hkind (hnew q hq m hm hm')
    · rcases List.mem_append.1 hq' with hq' | hq'
      · rw [List.mem_singleton.1 hq] at hm
        exact absurd hkind (hnew q' hq' m hm' hm)
      · rw [List.mem_singleton.1 hq, List.mem_singleton.1 hq']

end

omit [LawfulRole R'] in
theorem Dispatched.left [Peer R R'] (h : s.Dispatched set) (hjoined : s.Joined up set) {call : Call R}
    (hwrap : s.left.NoWrap call) (hs : s.next (.left call) = some s') : s'.Dispatched set := by
  obtain ⟨rfl, -⟩ := next_left hs
  have hintact := Connection.reach_intact hjoined.sender
  have htx : (s.left.after call).conn.crypto.tx = s.left.conn.crypto.tx := (Connection.after_numbered hintact call).1
  rcases Connection.after_queue hintact call with ⟨htakes, hshrinks⟩ | ⟨channel, payload, rfl, hsend, htakes⟩
  · have hsent : (s.left.after call).sent = s.left.sent := by simp [Party.after, htakes]
    cases hemitted : s.left.conn.emitted call with
    | none => exact h.shrink hshrinks hsent (by simp [Party.after, Party.parcel, hemitted]) htx
    | some datagram =>
      obtain ⟨now, out, ms, rfl, hwritten, hqueued, hcarried⟩ := Connection.emitted_written R' hjoined.sender
        hemitted (s.left.conn.carries call) s.left.conn.crypto.acked.newest
      obtain rfl := hcarried h.rising.keyed
      rw [hjoined.senderSet] at hwritten
      refine h.seal (p := ⟨s.left.conn.crypto.nextSequence, datagram, s.left.conn.carried now out,
        s.left.conn.crypto.acked.newest⟩) hshrinks hsent ?_ htx ⟨_, _, hwritten⟩ (fun m hm => ?_)
        (Connection.carried_rising h.rising now out) fun m hm hkind => ?_
      · simp [Party.after, Party.parcel, hemitted, Connection.carries]
      · obtain ⟨q, hq, hkey, hpayload⟩ := hqueued m hm
        refine ⟨?_, q, hq, hkey⟩
        -- the queue has the bytes the key was sent with
        obtain ⟨x, hx, hxkey⟩ := h.sound.queued q hq
        have hcontents := h.sound.stocked.contents_eq hq
        have hsame : m.payload = x.payload := by
          rw [← hpayload, show s.left.conn.channels.contents (q.key, q.bytes) = _ from hcontents, ← hxkey]
          exact h.sound.numbered.payloadOf_eq hx
        have hmx : x.key = m.key := hxkey.trans hkey
        have heq : m = x := by
          cases m
          cases x
          simp only [Message.key, MessageKey.mk.injEq] at hmx
          obtain ⟨rfl, rfl⟩ := hmx
          obtain rfl := hsame
          rfl
        rw [heq]
        exact hx
      · refine Connection.pollTransmit_gone hintact h.rising.keyed hemitted hm ?_
        rw [hjoined.senderSet]
        exact hkind
  · refine h.send hwrap hsend ?_ ?_ htx
    · simp [Party.after, htakes]
    · simp [Party.after, Party.parcel, Connection.emitted]

omit [LawfulRole R] in
/-- The right's calls leave the left's queue and packets. -/
theorem Dispatched.right (h : s.Dispatched set) (hjoined : s.Joined up set) (call : Call R') :
    ({ s with right := s.right.after call } : Duplex R R').Dispatched set := by
  have hset : (s.right.conn.after call).channels.set = set :=
    (Connection.after_set (Connection.reach_intact hjoined.receiver) call).trans hjoined.receiverSet
  have hsound := h.sound
  exact ⟨⟨hsound.senderSet, hset, hsound.numbered, hsound.next, hsound.stocked, hsound.queued, by simp [link]⟩, h.rising,
    h.written, h.sent, h.ordered, h.gone, h.apart⟩

/-! ## The receiver -/

/-- What a run keeps of one direction. -/
structure Conveyed (s : Duplex R R') (set : ChannelSet) : Prop where
  dispatched : s.Dispatched set
  inbox : ∃ arrived, Inbox.Kept set ⟨s.right.conn.channels, arrived, s.right.delivered⟩ ∧
    ∀ m ∈ arrived, ∃ x ∈ s.left.sent, m = x.arriving set
  /-- What an unreliable channel delivered came from messages of packets opened, each once. -/
  origins : ∀ channel, set.kind channel = some .unreliable → ∃ origin : List Message,
    (onChannel channel s.right.delivered).map Message.payload = origin.map Message.payload ∧ origin.Nodup ∧
      ∀ m ∈ origin, m.channel = channel ∧ ∃ p ∈ s.left.sealed, p.number ∈ s.right.opened ∧ m ∈ p.messages

omit [LawfulRole R'] in
theorem Conveyed.left [Peer R R'] (h : s.Conveyed set) (hjoined : s.Joined up set) {call : Call R}
    (hwrap : s.left.NoWrap call) (hs : s.next (.left call) = some s') : s'.Conveyed set := by
  have hdispatched := h.dispatched.left hjoined hwrap hs
  obtain ⟨rfl, -⟩ := next_left hs
  obtain ⟨arrived, hkept, hsub⟩ := h.inbox
  refine ⟨hdispatched, ⟨arrived, hkept, fun m hm => ?_⟩, fun channel hkind => ?_⟩
  · obtain ⟨x, hx, heq⟩ := hsub m hm
    exact ⟨x, List.mem_append_left _ hx, heq⟩
  · obtain ⟨origin, hpayloads, hnodup, hfrom⟩ := h.origins channel hkind
    refine ⟨origin, hpayloads, hnodup, fun m hm => ?_⟩
    obtain ⟨hchan, p, hp, hopened, hmem⟩ := hfrom m hm
    exact ⟨hchan, p, List.mem_append_left _ hp, hopened, hmem⟩

omit [LawfulRole R] [OwnOps R] [Role R] [OwnOps R'] [LawfulRole R'] in
/-- A receiver within reach of a packet awaits it. -/
theorem Conveyed.awaits (h : s.Conveyed set) {c : Channels} (hside : c.recvSide = s.right.conn.channels.recvSide)
    (hstarted : s.right.conn.channels.Started) {p : Parcel} (hp : p ∈ s.left.sealed)
    (hnear : ∀ m ∈ p.messages, s.right.conn.channels.Near m.channel m.id) : c.Awaits p.messages := by
  obtain ⟨hset, hreceivers, hheld, -⟩ := Channels.recvSide_eq hside
  obtain ⟨arrived, hkept, hsub⟩ := h.inbox
  obtain ⟨payload, hlog⟩ := hkept.ordered
  refine ⟨fun channel => by rw [hreceivers]; exact hstarted channel, fun m hm kind hkind hneeds => ?_,
    h.dispatched.ordered p hp, fun m _ e he _ => ?_⟩
  · have hkind : s.right.conn.channels.kind m.channel = some kind := by rwa [Channels.kind, hset] at hkind
    have href : c.reference m.channel kind = s.right.conn.channels.reference m.channel kind := by
      cases kind <;> simp only [Channels.reference, hreceivers]
    rw [href]
    exact hnear m hm kind hkind hneeds
  · rw [hheld] at he
    obtain ⟨hordered, harrived, -⟩ := hlog.held e he
    obtain ⟨x, hx, heq⟩ := hsub _ harrived
    have hchan : e.channel = x.channel := congrArg Message.channel heq
    rw [hchan] at hordered
    rw [Message.arriving_eq hordered rfl] at heq
    have hlt := h.dispatched.sound.numbered.id_lt hx
    have hmax := h.dispatched.sound.numbered.lt x.channel
    have hid : e.id = x.id := congrArg Message.id heq
    have hlt : x.id.toNat < (onChannel x.channel s.left.sent).length := hlt
    have hmax : (onChannel x.channel s.left.sent).length < 2 ^ 32 := hmax
    rw [hid]
    omega

omit [LawfulRole R] in
theorem Conveyed.right [FrameReader R] [Peer R' R] (h : s.Conveyed set) (hjoined : s.Joined up set)
    (hown : up.OpensOwn) {call : Call R'} (hgenuine : s.Genuine (.right call))
    (hreaches : s.right.Reaches s.left.sealed call) (hs : s.next (.right call) = some s') : s'.Conveyed set := by
  obtain ⟨rfl, -⟩ := next_right hs
  have hintact := Connection.reach_intact hjoined.receiver
  have hsound := h.dispatched.sound
  have hdispatched := h.dispatched.right hjoined call
  obtain ⟨arrived, hkept, hsub⟩ := h.inbox
  cases hopen : s.right.conn.opens call with
  | none =>
    obtain ⟨hside, hnone, -⟩ := Connection.after_unopened hintact hopen
    have hsame : (s.right.after call).delivered = s.right.delivered := by simp [Party.after, hnone]
    have hopened : (s.right.after call).opened = s.right.opened := by simp [Party.after, hopen]
    refine ⟨hdispatched, ⟨arrived, ?_, hsub⟩, ?_⟩ <;> dsimp only
    · rw [hsame]
      exact hkept.recvSide hside
    · rw [hsame, hopened]
      exact h.origins
  | some o =>
    obtain ⟨crypto, opened⟩ := o
    obtain ⟨p, hp, hseq, hfresh, now, sender, hcall, -⟩ := hjoined.opens hown hgenuine hopen
    obtain ⟨header, fs, hwritten⟩ := h.dispatched.written p hp
    obtain ⟨-, c, hside, hchannels, hout⟩ := hjoined.receives hown hp hcall hopen hwritten
    have hnear : ∀ m ∈ p.messages, s.right.conn.channels.Near m.channel m.id := by
      rw [hcall] at hreaches
      exact hreaches p hp rfl
    have hawaits := h.awaits hside (Connection.reach_proper hjoined.receiver).started hp hnear
    have hordered : ∀ m ∈ arrived, set.kind m.channel = some .reliableOrdered → m ∈ s.link.sent := by
      intro m hm hkind
      obtain ⟨x, hx, rfl⟩ := hsub m hm
      have hkind : set.kind x.channel = some .reliableOrdered := hkind
      rw [Message.arriving_eq hkind rfl]
      exact hx
    obtain ⟨hall, -, hplain⟩ := (hkept.recvSide hside).receiveAll hsound.numbered (h.dispatched.sent p hp) hawaits hordered
    rw [← hchannels, ← hout] at hall
    refine ⟨hdispatched, ⟨_, hall, fun m hm => ?_⟩, fun channel hkind => ?_⟩
    · rcases List.mem_append.1 hm with hm | hm
      · exact hsub m hm
      · obtain ⟨x, hx, rfl⟩ := List.mem_map.1 hm
        exact ⟨x, h.dispatched.sent p hp x hx, rfl⟩
    · obtain ⟨origin, hpayloads, hnodup, hfrom⟩ := h.origins channel hkind
      have hopened : (s.right.after call).opened = s.right.opened ++ [p.number] := by simp [Party.after, hopen, hseq]
      have hgot : (s.right.after call).delivered = s.right.delivered ++ (c.receiveAll p.messages).2.1 := by
        simp [Party.after, hout]
      refine ⟨origin ++ onChannel channel p.messages, ?_, ?_, fun m hm => ?_⟩
      · dsimp only
        rw [hgot, onChannel_append, List.map_append, List.map_append, hpayloads, hplain channel hkind]
      · refine List.nodup_append.2 ⟨hnodup, ?_, fun m hm m' hm' heq => ?_⟩
        · have hpairs := h.dispatched.ordered p hp
          refine List.Nodup.filter _ (hpairs.imp fun {a b} hab heq => ?_)
          exact absurd (hab (congrArg Message.channel heq)) (by rw [heq]; exact Nat.lt_irrefl _)
        · -- an unreliable message is in one packet, and this one was not open yet
          subst heq
          obtain ⟨hchan, q, hq, hqopened, hmem⟩ := hfrom m hm
          have hsame := h.dispatched.apart q hq p hp m hmem (mem_onChannel.1 hm').1 (by rw [hchan]; exact hkind)
          exact hfresh (hsame ▸ hqopened)
      · dsimp only
        rw [hopened]
        rcases List.mem_append.1 hm with hm | hm
        · obtain ⟨hchan, q, hq, hqopened, hmem⟩ := hfrom m hm
          exact ⟨hchan, q, hq, List.mem_append_left _ hqopened, hmem⟩
        · obtain ⟨hmem, hchan⟩ := mem_onChannel.1 hm
          exact ⟨hchan, p, hp, by simp, hmem⟩

omit [LawfulRole R] [LawfulRole R'] in
theorem start_dispatched (h : (sys R R' up down set).start s) : s.Dispatched set := by
  obtain ⟨id, now, addr, transport, owed, role, now', addr', transport', owed', role', hfresh, hfresh', rfl⟩ := h
  exact ⟨Link.start_sound set, by simp [Party.fresh, Connection.new, Channels.new, Channels.Rising],
    fun p hp => (by cases hp), fun p hp => (by cases hp), fun p hp => (by cases hp), fun p hp => (by cases hp),
    fun p hp => (by cases hp)⟩

theorem reach_conveyed [FrameReader R] [Marked R'] [Peer R R'] [Peer R' R] (hown : up.OpensOwn)
    (h : Lts.Reach (sys R R' up down set) InPace s) : s.Conveyed set := by
  refine Lts.Reach.invariant (P := fun s => s.Conveyed set) ?_ ?_ h
  · intro s hstart
    have hdispatched := start_dispatched hstart
    obtain ⟨id, now, addr, transport, owed, role, now', addr', transport', owed', role', hfresh, hfresh', rfl⟩ := hstart
    have hinbox : Inbox.Kept set ⟨.new set, [], []⟩ := Inbox.reach_kept (.start rfl)
    exact ⟨hdispatched, ⟨[], hinbox, fun m hm => (by cases hm)⟩, fun channel _ => ⟨[], rfl, .nil, by simp⟩⟩
  · intro s op s' hreach hs hop hnext
    have hjoined := reach_joined hown (fun _ _ hg => hg.1) hreach
    cases op with
    | left call => exact hs.left hjoined hop.2.1 hnext
    | right call => exact hs.right hjoined hown hop.1 hop.2.2 hnext

/-! ## What each kind promises -/

omit [LawfulRole R] [OwnOps R] [Role R] [OwnOps R'] [LawfulRole R'] in
/-- What a channel with ids delivered was sent on it. -/
theorem Conveyed.delivered_mem (h : s.Conveyed set) {channel : Nat} {kind : ChannelKind}
    (hkind : set.kind channel = some kind) (hneeds : kind.needsId = true) :
    ∀ m ∈ onChannel channel s.right.delivered, m ∈ onChannel channel s.left.sent := by
  intro m hm
  obtain ⟨hm, hchan⟩ := mem_onChannel.1 hm
  obtain ⟨arrived, hkept, hsub⟩ := h.inbox
  obtain ⟨x, hx, rfl⟩ := hsub m (hkept.genuine m hm)
  have hchan : x.channel = channel := hchan
  rw [Message.arriving_eq (by rw [hchan]; exact hkind) hneeds]
  exact mem_onChannel.2 ⟨hx, hchan⟩

omit [LawfulRole R] [OwnOps R] [Role R] [OwnOps R'] [LawfulRole R'] in
theorem Conveyed.promises (h : s.Conveyed set) {channel : Nat} {kind : ChannelKind}
    (hkind : set.kind channel = some kind) :
    kind.Promises ((onChannel channel s.left.sent).map Message.payload)
      ((onChannel channel s.right.delivered).map Message.payload) := by
  have hnum : Numbered set s.left.sent := h.dispatched.sound.numbered
  obtain ⟨arrived, hkept, -⟩ := h.inbox
  cases kind with
  | reliableOrdered =>
    obtain ⟨payload, hlog⟩ := hkept.ordered
    obtain ⟨hids, -⟩ := hlog.ids channel hkind
    have hmem := h.delivered_mem hkind rfl
    -- the message at place `i` is the one sent at place `i`
    have hget : ∀ (i : Nat) (m : Message), (onChannel channel s.right.delivered)[i]? = some m →
        (onChannel channel s.left.sent)[i]? = some m := by
      intro i m hi
      have hin := hmem m (List.mem_of_getElem? hi)
      obtain ⟨hsent, hchan⟩ := mem_onChannel.1 hin
      have hid : ((onChannel channel s.right.delivered).map fun m => m.id.toNat)[i]? = some m.id.toNat := by
        rw [List.getElem?_map, hi]
        rfl
      rw [hids, List.getElem?_range (List.getElem?_eq_some_iff.1 hi).1] at hid
      have hplace := hnum.get hsent
      rwa [hchan, ← Option.some.inj hid] at hplace
    refine List.IsPrefix.map _ (List.prefix_iff_getElem?.2 fun i hi => ?_)
    exact hget i _ (List.getElem?_eq_getElem hi)
  | unreliableSequenced =>
    obtain ⟨-, -, hmono⟩ := hkept.follows channel _ hkind
    rw [List.pairwise_map] at hmono
    have hsorted : (onChannel channel s.left.sent).Pairwise fun m m' => m.id.toNat < m'.id.toNat := by
      have hids := hnum.ids channel
      rw [← List.pairwise_map (f := fun m : Message => m.id.toNat) (R := (· < ·)), hids]
      exact List.pairwise_lt_range
    have hnodup : (onChannel channel s.right.delivered).Nodup :=
      hmono.imp fun {a b} hab heq => absurd hab (by rw [heq]; exact Nat.lt_irrefl _)
    have : Std.Antisymm fun m m' : Message => m.id.toNat < m'.id.toNat :=
      ⟨fun a b hab hba => absurd (Nat.lt_trans hab hba) (Nat.lt_irrefl _)⟩
    exact (List.sublist_of_subperm_of_pairwise
      (List.subperm_of_subset hnodup (h.delivered_mem hkind rfl)) hmono hsorted).map _
  | reliableUnordered =>
    have hnodup := List.Nodup.of_map _ (hkept.follows channel _ hkind).2
    exact (List.subperm_of_subset hnodup (h.delivered_mem hkind rfl)).image _
  | unreliable =>
    obtain ⟨origin, hpayloads, hnodup, hfrom⟩ := h.origins channel hkind
    rw [hpayloads]
    refine (List.subperm_of_subset hnodup fun m hm => ?_).image _
    obtain ⟨hchan, p, hp, -, hmem⟩ := hfrom m hm
    exact mem_onChannel.2 ⟨h.dispatched.sent p hp m hmem, hchan⟩

/-- **Each kind keeps its promise, end to end.** Two connections, any calls on
either side at any times, any network, as long as no channel's ids wrap and
each packet that arrives has its ids within 32767 of what the receiver has come
to: on an ordered channel the application is handed a prefix of what the other
sent, on a sequenced one a part of it in order, and on the others each message
at most as often as it was sent. -/
theorem conveyed_in_order [FrameReader R] [Marked R] [Marked R'] [Peer R R'] [Peer R' R] (hup : up.OpensOwn)
    (hdown : down.OpensOwn) (h : Lts.Reach (sys R R' up down set) InPace s) {channel : Nat} {kind : ChannelKind}
    (hkind : set.kind channel = some kind) :
    kind.Promises ((onChannel channel s.left.sent).map Message.payload)
        ((onChannel channel s.right.delivered).map Message.payload) ∧
      kind.Promises ((onChannel channel s.right.sent).map Message.payload)
        ((onChannel channel s.left.delivered).map Message.payload) :=
  ⟨(reach_conveyed hup h).promises hkind, (reach_conveyed hdown (reach_swap inPace_swap h)).promises hkind⟩

/-- The packet after the greeting, with `[3]` on the same channel. -/
def follower : List UInt8 :=
  ((((Connection.accepting.send 0 [1, 2]).1.pollTransmit .zero Connection.blank).1.send 0 [3]).1.pollTransmit .zero
    Connection.blank).2.getD []

set_option maxRecDepth 10000 in
/-- The second packet overtakes the first. -/
theorem conveyed_in_order_overtaking :
    ∃ s, Lts.Reach (sys Server Client .clear .clear Connection.twoKinds) InPace s ∧
      s.right.delivered = [⟨0, 0, [1, 2]⟩, ⟨0, 1, [3]⟩] ∧ s.right.opened = [2, 1] ∧
      ChannelKind.reliableOrdered.Promises ((onChannel 0 s.left.sent).map Message.payload)
        ((onChannel 0 s.right.delivered).map Message.payload) := by
  obtain ⟨s, hreach, hdelivered, hopened⟩ := Lts.Reach.evaluates
    (M := sys Server Client .clear .clear Connection.twoKinds) (fun _ _ _ hs => hs) (opening_reach InPace)
    [.left (.send 0 [1, 2]), .left (.pollTransmit .zero Connection.blank), .left (.send 0 [3]),
      .left (.pollTransmit .zero Connection.blank), .right (.handleDatagram .zero (.v4 0 0) follower),
      .right (.handleDatagram .zero (.v4 0 0) greeting), .right (.handleDatagram .zero (.v4 0 0) follower)]
    (fun s => s.right.delivered = [⟨0, 0, [1, 2]⟩, ⟨0, 1, [3]⟩] ∧ s.right.opened = [2, 1]) (by decide +kernel)
  exact ⟨s, hreach, hdelivered, hopened,
    (conveyed_in_order Aead.clear_opensOwn Aead.clear_opensOwn hreach
      (show Connection.twoKinds.kind 0 = some .reliableOrdered from rfl)).1⟩

end Duplex

end HexNet
