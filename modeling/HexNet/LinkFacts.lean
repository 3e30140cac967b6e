/-
What holds of a link while no channel's id counter wraps: the sender's queue
holds what was sent, every packet reads as the messages staged in it, and a
channel's messages are numbered in the order they were sent.
-/
import HexNet.Link
import Mathlib.Data.List.Nodup

namespace HexNet

/-- The messages of one channel. -/
def onChannel (channel : Nat) (l : List Message) : List Message := l.filter fun m => m.channel == channel

/-- The payload a key was sent with. -/
def payloadOf (sent : List Message) (key : MessageKey) : List UInt8 :=
  ((sent.find? fun m => m.key == key).map (·.payload)).getD []

theorem onChannel_append (channel : Nat) (l l' : List Message) :
    onChannel channel (l ++ l') = onChannel channel l ++ onChannel channel l' := List.filter_append ..

theorem onChannel_snoc_of_eq {channel : Nat} {m : Message} (h : m.channel = channel) (l : List Message) :
    onChannel channel (l ++ [m]) = onChannel channel l ++ [m] := by
  simp [onChannel, h]

theorem onChannel_snoc_of_ne {channel : Nat} {m : Message} (h : m.channel ≠ channel) (l : List Message) :
    onChannel channel (l ++ [m]) = onChannel channel l := by
  simp [onChannel, h]

theorem mem_onChannel {channel : Nat} {l : List Message} {m : Message} :
    m ∈ onChannel channel l ↔ m ∈ l ∧ m.channel = channel := by
  simp [onChannel]

/-- What one channel handed over, seen from it. -/
theorem onChannel_own {channel : Nat} {out : List Message} (h : ∀ m ∈ out, m.channel = channel) (l : List Message) :
    onChannel channel (l ++ out) = onChannel channel l ++ out := by
  rw [onChannel_append]
  exact congrArg _ (List.filter_eq_self.2 fun m hm => beq_iff_eq.2 (h m hm))

/-- What one channel handed over, seen from another. -/
theorem onChannel_other {channel ch : Nat} {out : List Message} (h : ∀ m ∈ out, m.channel = channel) (hne : ch ≠ channel)
    (l : List Message) : onChannel ch (l ++ out) = onChannel ch l := by
  have hnil : onChannel ch out = [] := List.filter_eq_nil_iff.2 fun m hm hc => by
    rw [beq_iff_eq, h m hm] at hc
    exact hne hc.symm
  rw [onChannel_append, hnil, List.append_nil]

/-! ## The log of sends -/

/-- Each channel's messages are numbered from zero in the order they were
sent, on channels of the set and within the largest message. -/
structure Numbered (set : ChannelSet) (sent : List Message) : Prop where
  ids : ∀ channel, (onChannel channel sent).map (·.id.toNat) = List.range (onChannel channel sent).length
  lt : ∀ channel, (onChannel channel sent).length < 2 ^ 32
  wired : ∀ m ∈ sent, Channels.Wired set m

namespace Numbered

variable {set : ChannelSet} {sent : List Message}

theorem nil (set : ChannelSet) : Numbered set [] := ⟨fun _ => rfl, fun _ => by simp [onChannel], by simp⟩

theorem id_of_get (h : Numbered set sent) {channel i : Nat} {m : Message} (hi : (onChannel channel sent)[i]? = some m) :
    m.id.toNat = i := by
  have hid : ((onChannel channel sent).map (·.id.toNat))[i]? = some m.id.toNat := by
    rw [List.getElem?_map, hi]; rfl
  rw [h.ids, List.getElem?_range (List.getElem?_eq_some_iff.1 hi).1] at hid
  exact (Option.some.inj hid).symm

theorem exists_id (h : Numbered set sent) {channel i : Nat} (hi : i < (onChannel channel sent).length) :
    ∃ m ∈ sent, m.channel = channel ∧ m.id.toNat = i := by
  have hget := List.getElem?_eq_getElem hi
  obtain ⟨hmem, hchan⟩ := mem_onChannel.1 (List.mem_of_getElem? hget)
  exact ⟨_, hmem, hchan, h.id_of_get hget⟩

/-- A message's id is its place among its channel's messages. -/
theorem get (h : Numbered set sent) {m : Message} (hm : m ∈ sent) :
    (onChannel m.channel sent)[m.id.toNat]? = some m := by
  obtain ⟨i, hi⟩ := List.mem_iff_getElem?.1 (mem_onChannel.2 ⟨hm, rfl⟩)
  rw [h.id_of_get hi]
  exact hi

theorem nodup_onChannel (h : Numbered set sent) (channel : Nat) : (onChannel channel sent).Nodup := by
  refine List.Nodup.of_map (·.id.toNat) ?_
  rw [h.ids]
  exact List.nodup_range

theorem id_lt (h : Numbered set sent) {m : Message} (hm : m ∈ sent) :
    m.id.toNat < (onChannel m.channel sent).length := (List.getElem?_eq_some_iff.1 (h.get hm)).1

/-- A key names one message. -/
theorem key_inj (h : Numbered set sent) {m m' : Message} (hm : m ∈ sent) (hm' : m' ∈ sent) (hkey : m.key = m'.key) :
    m = m' := by
  have hchan : m.channel = m'.channel := congrArg MessageKey.channel hkey
  have hid : m.id = m'.id := congrArg MessageKey.id hkey
  have h₁ := h.get hm
  rw [hchan, hid, h.get hm'] at h₁
  exact (Option.some.inj h₁).symm

theorem payloadOf_eq (h : Numbered set sent) {m : Message} (hm : m ∈ sent) : payloadOf sent m.key = m.payload := by
  unfold payloadOf
  cases hfind : sent.find? fun x => x.key == m.key with
  | none =>
    have := List.find?_eq_none.1 hfind m hm
    simp at this
  | some x =>
    have hkey : x.key = m.key := by simpa using List.find?_some hfind
    rw [h.key_inj (List.mem_of_find?_eq_some hfind) hm hkey]
    rfl

theorem message_eq (h : Numbered set sent) {m : Message} (hm : m ∈ sent) {x : Written} (hkey : m.key = x.key) :
    x.message (payloadOf sent) = m := by
  have hchan : m.channel = x.channel := congrArg MessageKey.channel hkey
  have hid : m.id = x.id := congrArg MessageKey.id hkey
  rw [Written.message, ← hkey, h.payloadOf_eq hm, ← hchan, ← hid]

/-- The next message of a channel takes the next number. -/
theorem append (h : Numbered set sent) {m : Message} (hid : m.id.toNat = (onChannel m.channel sent).length)
    (hlt : (onChannel m.channel sent).length + 1 < 2 ^ 32) (hwired : Channels.Wired set m) :
    Numbered set (sent ++ [m]) where
  ids := by
    intro channel
    by_cases hc : m.channel = channel
    · subst hc
      rw [onChannel_snoc_of_eq rfl, List.map_append, h.ids, List.length_append, List.length_singleton, List.range_succ,
        List.map_singleton, hid]
    · rw [onChannel_snoc_of_ne hc]
      exact h.ids channel
  lt := by
    intro channel
    by_cases hc : m.channel = channel
    · subst hc
      rw [onChannel_snoc_of_eq rfl, List.length_append]
      exact hlt
    · rw [onChannel_snoc_of_ne hc]
      exact h.lt channel
  wired := by
    intro x hx
    rcases List.mem_append.1 hx with hx | hx
    · exact h.wired x hx
    · rw [List.mem_singleton.1 hx]; exact hwired

end Numbered

/-- Sends to come do not change what a sent key carries. -/
theorem payloadOf_append {sent : List Message} {key : MessageKey} (h : ∃ m ∈ sent, m.key = key) (m : Message) :
    payloadOf (sent ++ [m]) key = payloadOf sent key := by
  obtain ⟨x, hx, hkey⟩ := h
  have hsome : (sent.find? fun m => m.key == key).isSome := List.find?_isSome.2 ⟨x, hx, by simp [hkey]⟩
  obtain ⟨y, hy⟩ := Option.isSome_iff_exists.1 hsome
  rw [payloadOf, payloadOf, List.find?_append, hy]
  rfl

namespace Channels

/-- What an acknowledgement releases was pending, under the payload it was
sent with. -/
theorem mem_acking {c : Channels} {payload : MessageKey → List UInt8} (h : c.Stocked fun e => payload e.1)
    {keys : List MessageKey} {m : Message} (hm : m ∈ c.acking keys) :
    m.key ∈ keys ∧ m.payload = payload m.key ∧ ∃ p ∈ c.pending.items, p.key = m.key := by
  induction keys generalizing c with
  | nil => simp [acking] at hm
  | cons key rest ih =>
    rw [acking, List.mem_append] at hm
    rcases hm with hm | hm
    · cases hfind : c.pending.items.find? fun m => m.key == key with
      | none => simp [hfind] at hm
      | some p =>
        have hp := List.mem_of_find?_eq_some hfind
        have hkey : p.key = key := by simpa using List.find?_some hfind
        have hload : c.sendArena.load p.bytes maxMessage = some (payload p.key) :=
          Arena.load_owned h.owns (List.mem_map.2 ⟨p, hp, rfl⟩) (h.wired p hp).2
        simp only [hfind, Option.map_some, hload, Option.getD_some, Option.toList_some, List.mem_singleton] at hm
        subst hm
        exact ⟨by rw [← hkey]; simp [Message.key, Pending.key], rfl, p, hp, rfl⟩
    · obtain ⟨hmem, hpay, p, hp, hkey⟩ := ih (h.releasePending key) hm
      obtain ⟨p', hp', hkey'⟩ := (releasePending_settles c key).kept p hp
      exact ⟨by simp [hmem], hpay, p', hp', hkey'.trans hkey⟩

end Channels

/-! ## The link's own invariant -/

/-- A packet carries sent messages, reads as them, and is recorded by keys of
its own. -/
structure LinkPacket.Built (set : ChannelSet) (sent : List Message) (p : LinkPacket) : Prop where
  staged : ∀ x ∈ p.staged.items, ∃ m ∈ sent, m.key = x.key
  reads : ∀ c : Channels, c.set = set → c.readFrames (8 * p.bytes.length + 1) (.new p.bytes) =
    Channels.receiveAll (p.staged.items.map (Written.message (payloadOf sent))) c
  record : ∀ r, p.record = some r → ∀ k ∈ r.items, ∃ x ∈ p.staged.items, x.key = k

theorem LinkPacket.Built.append {set : ChannelSet} {sent : List Message} {p : LinkPacket} (h : p.Built set sent)
    (m : Message) : p.Built set (sent ++ [m]) where
  staged := by
    intro x hx
    obtain ⟨m', hm', hkey⟩ := h.staged x hx
    exact ⟨m', by simp [hm'], hkey⟩
  reads := by
    intro c hc
    rw [h.reads c hc]
    congr 1
    refine List.map_congr_left fun x hx => ?_
    rw [Written.message, Written.message, payloadOf_append (h.staged x hx)]
  record := h.record

namespace Link

structure Sound (set : ChannelSet) (s : Link) : Prop where
  senderSet : s.sender.set = set
  receiverSet : s.receiver.set = set
  numbered : Numbered set s.sent
  next : ∀ channel, (s.sender.nextIds channel).toNat = (onChannel channel s.sent).length
  stocked : s.sender.Stocked fun e => payloadOf s.sent e.1
  queued : ∀ m ∈ s.sender.pending.items, ∃ x ∈ s.sent, x.key = m.key
  built : ∀ p ∈ s.packets, p.Built set s.sent

theorem start_sound (set : ChannelSet) : (start set).Sound set where
  senderSet := rfl
  receiverSet := rfl
  numbered := .nil set
  next := fun _ => rfl
  stocked := Channels.new_stocked set _
  queued := by simp [start, Channels.new]
  built := by simp [start]

/-- The sender's marks and releases leave the rest as it was. -/
theorem Sound.shrink {set : ChannelSet} {s : Link} (h : s.Sound set) {c : Channels} (hc : s.sender.Shrinks c)
    (released : List Message) : { s with sender := c, released := released }.Sound set where
  senderSet := hc.set_eq.trans h.senderSet
  receiverSet := h.receiverSet
  numbered := h.numbered
  next := fun channel => by rw [hc.next_eq]; exact h.next channel
  stocked := hc.stocked _ h.stocked
  queued := by
    intro m hm
    obtain ⟨m', hm', hkey⟩ := hc.kept m hm
    obtain ⟨x, hx, hxkey⟩ := h.queued m' hm'
    exact ⟨x, hx, hxkey.trans hkey⟩
  built := h.built

/-- Packets may be added and changed as long as each is well built. -/
theorem Sound.packets {set : ChannelSet} {s : Link} (h : s.Sound set) {packets : List LinkPacket}
    (hbuilt : ∀ p ∈ packets, p.Built set s.sent) : { s with packets }.Sound set :=
  ⟨h.senderSet, h.receiverSet, h.numbered, h.next, h.stocked, h.queued, hbuilt⟩

/-- A freshly filled packet is well built. -/
theorem Sound.built_new {set : ChannelSet} {s : Link} (h : s.Sound set) (buf : List UInt8) (limit : Nat) :
    (⟨Channels.packetBytes (s.sender.writeFrames (.new buf) .empty limit).2.1,
      (s.sender.writeFrames (.new buf) .empty limit).2.2.1, none, false⟩ : LinkPacket).Built set s.sent ∧
      s.sender.Shrinks (s.sender.writeFrames (.new buf) .empty limit).1 := by
  obtain ⟨new, hcarry⟩ := Channels.writeFrames_carries h.stocked (BitWriter.new_holds buf) .empty limit
  have hstaged : (s.sender.writeFrames (.new buf) .empty limit).2.2.1.items = new.map Prod.fst := by
    simpa using hcarry.staged_eq
  have hmessages : (new.map Prod.fst).map (Written.message (payloadOf s.sent)) =
      new.map (Written.entryMessage fun e => payloadOf s.sent e.1) := by
    rw [List.map_map]
    rfl
  have hsent : ∀ x ∈ new.map Prod.fst, ∃ m ∈ s.sent, m.key = x.key := by
    intro x hx
    obtain ⟨e, he, rfl⟩ := List.mem_map.1 hx
    obtain ⟨m, hm, hkey, -⟩ := Channels.mem_queue.1 (hcarry.queued e he).1
    obtain ⟨y, hy, hykey⟩ := h.queued m hm
    exact ⟨y, hy, hykey.trans hkey⟩
  refine ⟨⟨by rw [hstaged]; exact hsent, fun c hc => ?_, by simp⟩, .of_queue hcarry.queue_eq rfl rfl rfl⟩
  obtain ⟨tail, hsees, hend⟩ := Channels.packetBytes_sees hcarry.holds
  rw [← hmessages] at hsees hend
  rw [hstaged]
  have hset : s.sender.set = c.set := h.senderSet.trans hc.symm
  simp only [BitFields.width_nil, List.nil_append, hset] at hsees hend
  refine Channels.readFrames_eq ?_ hsees ?_ ?_
  · intro m hm
    obtain ⟨x, hx, rfl⟩ := List.mem_map.1 hm
    obtain ⟨m, hm, hkey⟩ := hsent x hx
    rw [h.numbered.message_eq hm hkey, hc]
    exact h.numbered.wired m hm
  · show Channels.EndsPacket _ (0 + _) tail
    rw [Nat.zero_add]
    exact hend
  · have hfits := hsees.fits
    have hlen := Channels.length_le_width_framesFields c.set 0
      ((new.map Prod.fst).map (Written.message (payloadOf s.sent)))
    rw [BitFields.width_append] at hfits
    show _ < 8 * (BitReader.new _).buffer.length + 1
    omega

/-! ## What a step is, to the logs -/

/-- Packets that have arrived had arrived before. -/
def SameArrivals (s s' : Link) : Prop :=
  ∀ p ∈ s'.packets, p.arrived = true → ∃ p₀ ∈ s.packets, p₀.arrived = true ∧ p₀.staged = p.staged

/-- What a step does to the receiver and the logs. -/
inductive Effect (s : Link) : LinkOp → Link → Prop
  | quiet {op : LinkOp} {s' : Link} : (∀ i, op ≠ .read i) → s'.receiver = s.receiver → s'.sent = s.sent →
    s'.delivered = s.delivered → s'.released = s.released → SameArrivals s s' → Effect s op s'
  | sent {s' : Link} (m : Message) : m.id.toNat = (onChannel m.channel s.sent).length →
    s'.receiver = s.receiver → s'.sent = s.sent ++ [m] → s'.delivered = s.delivered → s'.released = s.released →
    SameArrivals s s' → Effect s (.send m.channel m.payload) s'
  | read {s' : Link} (i : Nat) (packet : LinkPacket) (r : Channels × List Message × Bool) :
    s.packets[i]? = some packet →
    Channels.receiveAll (packet.staged.items.map (Written.message (payloadOf s.sent))) s.receiver = r →
    s'.receiver = r.1 → s'.sent = s.sent → s'.delivered = s.delivered ++ r.2.1 → s'.released = s.released →
    (∀ p ∈ s'.packets, p.arrived = true → (∃ p₀ ∈ s.packets, p₀.arrived = true ∧ p₀.staged = p.staged) ∨
      (p.staged = packet.staged ∧ r.2.2 = true)) → Effect s (.read i) s'
  | acked {s' : Link} (i : Nat) (packet : LinkPacket) (ms : List Message) :
    packet ∈ s.packets → packet.arrived = true →
    (∀ m ∈ ms, m ∈ s.sent ∧ ∃ x ∈ packet.staged.items, x.key = m.key) →
    s'.receiver = s.receiver → s'.sent = s.sent → s'.delivered = s.delivered → s'.released = s.released ++ ms →
    SameArrivals s s' → Effect s (.ack i) s'

theorem SameArrivals.of_eq {s s' : Link} (h : s'.packets = s.packets) : SameArrivals s s' :=
  fun p hp ha => ⟨p, by rw [← h]; exact hp, ha, rfl⟩

/-- No channel is about to number its last message. -/
def NoWrap (s : Link) : LinkOp → Prop
  | .send channel _ => (onChannel channel s.sent).length + 1 < 2 ^ 32
  | _ => True

/-- A send that succeeds: the message takes the channel's next number. -/
theorem Sound.send {set : ChannelSet} {s : Link} (h : s.Sound set) {channel : Nat} {payload : List UInt8} {c : Channels}
    (hwrap : (onChannel channel s.sent).length + 1 < 2 ^ 32) (hsend : s.sender.send channel payload = (c, .ok ())) :
    ({ s with sender := c, sent := s.sent ++ [⟨channel, s.sender.nextIds channel, payload⟩] } : Link).Sound set := by
  obtain ⟨r, hitems, howns, hnext, hset, hkind, hlen⟩ := Channels.send_ok h.stocked hsend
  generalize hm : (⟨channel, s.sender.nextIds channel, payload⟩ : Message) = m
  have hchan : m.channel = channel := by rw [← hm]
  have hkey : m.key = ⟨channel, s.sender.nextIds channel⟩ := by rw [← hm]; rfl
  have hpay : m.payload = payload := by rw [← hm]
  have hid : m.id.toNat = (onChannel m.channel s.sent).length := by rw [← hm]; exact h.next channel
  have hwired : Channels.Wired set m := by
    rw [Channels.Wired, hchan, hpay, ← h.senderSet]
    exact ⟨hkind, hlen⟩
  have hnum : Numbered set (s.sent ++ [m]) := h.numbered.append hid (by rw [hchan]; exact hwrap) hwired
  have hold : ∀ p ∈ s.sender.pending.items, payloadOf (s.sent ++ [m]) p.key = payloadOf s.sent p.key :=
    fun p hp => payloadOf_append (h.queued p hp) m
  have hnew : payloadOf (s.sent ++ [m]) ⟨channel, s.sender.nextIds channel⟩ = payload := by
    rw [← hkey, hnum.payloadOf_eq (by simp), hpay]
  refine ⟨hset.trans h.senderSet, h.receiverSet, hnum, ?_, ⟨?_, ?_⟩, ?_, fun p hp => (h.built p hp).append m⟩
  · intro c'
    dsimp only
    rw [hnext]
    by_cases hc : channel = c'
    · subst hc
      rw [Function.update_self, onChannel_snoc_of_eq hchan, List.length_append, List.length_singleton, MessageId.next,
        UInt32.toNat_add, h.next channel]
      exact Nat.mod_eq_of_lt hwrap
    · rw [Function.update_of_ne (Ne.symm hc), onChannel_snoc_of_ne (by rw [hchan]; exact hc)]
      exact h.next c'
  · dsimp only
    rw [hitems, Channels.live, List.map_append, List.map_singleton]
    have hsame : s.sender.pending.items.map (fun p => (p.bytes, payloadOf (s.sent ++ [m]) p.key)) =
        Channels.live (fun e => payloadOf s.sent e.1) s.sender.pending.items :=
      List.map_congr_left fun p hp => by rw [hold p hp]
    rw [hsame, Pending.key, hnew]
    exact howns
  · dsimp only
    intro p hp
    rw [hitems] at hp
    rw [Channels.kind, hset]
    rcases List.mem_append.1 hp with hp | hp
    · rw [hold p hp]
      exact h.stocked.wired p hp
    · rw [List.mem_singleton.1 hp, Pending.key, hnew]
      exact ⟨hkind, hlen⟩
  · dsimp only
    intro p hp
    rw [hitems] at hp
    rcases List.mem_append.1 hp with hp | hp
    · obtain ⟨x, hx, hkey⟩ := h.queued p hp
      exact ⟨x, by simp [hx], hkey⟩
    · rw [List.mem_singleton.1 hp]
      exact ⟨m, by simp, hkey⟩

section

variable {set : ChannelSet} {s s' : Link}

theorem Sound.step_send (h : s.Sound set) {channel : Nat} {payload : List UInt8} (hwrap : s.NoWrap (.send channel payload))
    (hstep : s.apply (.send channel payload) = some s') : s'.Sound set ∧ Effect s (.send channel payload) s' := by
  rw [apply] at hstep
  cases hsend : s.sender.send channel payload with
  | mk c r =>
    rw [hsend] at hstep
    cases r with
    | error e =>
      obtain rfl := Option.some.inj hstep
      rw [Channels.send_error h.stocked hsend]
      exact ⟨h, .quiet nofun rfl rfl rfl rfl (.of_eq rfl)⟩
    | ok u =>
      obtain rfl := Option.some.inj hstep
      exact ⟨h.send hwrap hsend, .sent ⟨channel, s.sender.nextIds channel, payload⟩ (h.next channel) rfl rfl rfl rfl
        (.of_eq rfl)⟩

theorem Sound.step_build (h : s.Sound set) {buf : List UInt8} {limit : Nat}
    (hstep : s.apply (.build buf limit) = some s') : s'.Sound set ∧ Effect s (.build buf limit) s' := by
  obtain rfl := Option.some.inj hstep
  obtain ⟨hbuilt, hshrink⟩ := h.built_new buf limit
  have hs := h.shrink hshrink s.released
  refine ⟨hs.packets fun p hp => ?_, .quiet nofun rfl rfl rfl rfl fun p hp ha => ?_⟩
  · rcases List.mem_append.1 hp with hp | hp
    · exact h.built p hp
    · rw [List.mem_singleton.1 hp]; exact hbuilt
  · rcases List.mem_append.1 hp with hp | hp
    · exact ⟨p, hp, ha, rfl⟩
    · rw [List.mem_singleton.1 hp] at ha; cases ha

theorem Sound.step_commit (h : s.Sound set) {i : Nat} (hstep : s.apply (.commit i) = some s') :
    s'.Sound set ∧ Effect s (.commit i) s' := by
  obtain ⟨packet, hget, hgo⟩ := Option.bind_eq_some_iff.1 hstep
  split at hgo
  · cases hgo
  obtain rfl := Option.some.inj hgo
  have hmem := List.mem_of_getElem? hget
  obtain ⟨hshrink, hrec⟩ := Channels.onPacketSent_spec s.sender packet.staged
  have hs := h.shrink hshrink.toShrinks s.released
  refine ⟨hs.packets fun p hp => ?_, .quiet nofun rfl rfl rfl rfl fun p hp ha => ?_⟩
  · rcases List.mem_or_eq_of_mem_set hp with hp | rfl
    · exact h.built p hp
    · refine ⟨(h.built packet hmem).staged, (h.built packet hmem).reads, fun r hr k hk => ?_⟩
      obtain rfl := Option.some.inj hr
      rw [hrec] at hk
      obtain ⟨x, hx, hkey⟩ := List.mem_map.1 hk
      exact ⟨x, (List.mem_filter.1 hx).1, hkey⟩
  · rcases List.mem_or_eq_of_mem_set hp with hp | rfl
    · exact ⟨p, hp, ha, rfl⟩
    · exact ⟨packet, hmem, ha, rfl⟩

theorem Sound.step_read (h : s.Sound set) {i : Nat} (hstep : s.apply (.read i) = some s') :
    s'.Sound set ∧ Effect s (.read i) s' := by
  obtain ⟨packet, hget, hgo⟩ := Option.bind_eq_some_iff.1 hstep
  split at hgo
  · cases hgo
  obtain rfl := Option.some.inj hgo
  have hmem := List.mem_of_getElem? hget
  have hreads := (h.built packet hmem).reads s.receiver h.receiverSet
  rw [hreads]
  refine ⟨⟨h.senderSet, ?_, h.numbered, h.next, h.stocked, h.queued, fun p hp => ?_⟩,
    .read i packet _ hget rfl rfl rfl rfl rfl fun p hp ha => ?_⟩
  · exact (Channels.receiveAll_set _ _).trans h.receiverSet
  · rcases List.mem_or_eq_of_mem_set hp with hp | rfl
    · exact h.built p hp
    · exact ⟨(h.built packet hmem).staged, (h.built packet hmem).reads, (h.built packet hmem).record⟩
  · rcases List.mem_or_eq_of_mem_set hp with hp | rfl
    · exact .inl ⟨p, hp, ha, rfl⟩
    · rcases Bool.or_eq_true_iff.1 ha with ha | ha
      · exact .inl ⟨packet, hmem, ha, rfl⟩
      · exact .inr ⟨rfl, ha⟩

/-- A message released is one that was sent, under its own key. -/
theorem Sound.acking_sent (h : s.Sound set) {keys : List MessageKey} {m : Message} (hm : m ∈ s.sender.acking keys) :
    m ∈ s.sent ∧ m.key ∈ keys := by
  obtain ⟨hkey, hpay, p, hp, hpkey⟩ := Channels.mem_acking h.stocked hm
  obtain ⟨x, hx, hxkey⟩ := h.queued p hp
  have hxm : x.key = m.key := hxkey.trans hpkey
  have heq : m = x := by
    have hpayx := h.numbered.payloadOf_eq hx
    rw [hxm] at hpayx
    cases m; cases x
    simp only [Message.key, MessageKey.mk.injEq] at hxm hpay hpayx ⊢
    simp_all
  exact ⟨heq ▸ hx, hkey⟩

theorem Sound.step_ack (h : s.Sound set) {i : Nat} (hstep : s.apply (.ack i) = some s') :
    s'.Sound set ∧ Effect s (.ack i) s' := by
  obtain ⟨packet, hget, hgo⟩ := Option.bind_eq_some_iff.1 hstep
  obtain ⟨record, hrec, hgo⟩ := Option.bind_eq_some_iff.1 hgo
  by_cases harr : packet.arrived = true
  · rw [if_pos harr] at hgo
    obtain rfl := Option.some.inj hgo
    have hmem := List.mem_of_getElem? hget
    refine ⟨h.shrink (Channels.onAcked_settles s.sender record).toShrinks _,
      .acked i packet _ hmem harr (fun m hm => ?_) rfl rfl rfl rfl (.of_eq rfl)⟩
    obtain ⟨hsent, hkey⟩ := h.acking_sent hm
    exact ⟨hsent, (h.built packet hmem).record record hrec m.key hkey⟩
  · rw [if_neg harr] at hgo
    cases hgo

/-- **One step**, while no counter wraps: the invariant is kept, and the step
is one of four to the receiver and the logs. -/
theorem Sound.step {op : LinkOp} (h : s.Sound set) (hwrap : s.NoWrap op) (hstep : s.apply op = some s') :
    s'.Sound set ∧ Effect s op s' := by
  cases op with
  | send channel payload => exact h.step_send hwrap hstep
  | build buf limit => exact h.step_build hstep
  | commit i => exact h.step_commit hstep
  | read i => exact h.step_read hstep
  | ack i => exact h.step_ack hstep
  | lose i =>
    obtain ⟨packet, hget, hgo⟩ := Option.bind_eq_some_iff.1 hstep
    obtain ⟨record, hrec, rfl⟩ := Option.map_eq_some_iff.1 hgo
    exact ⟨h.shrink (Channels.onLost_settles s.sender record).toShrinks s.released,
      .quiet nofun rfl rfl rfl rfl (.of_eq rfl)⟩
  | requeue n =>
    obtain rfl := Option.some.inj hstep
    exact ⟨h.shrink (Channels.requeueOldest_settles s.sender n).toShrinks s.released,
      .quiet nofun rfl rfl rfl rfl (.of_eq rfl)⟩

end

/-- What a packet carries was sent. -/
theorem Sound.carried {set : ChannelSet} {s : Link} (h : s.Sound set) {i : Nat} {packet : LinkPacket}
    (hget : s.packets[i]? = some packet) :
    ∀ m ∈ packet.staged.items.map (Written.message (payloadOf s.sent)), m ∈ s.sent := by
  intro m hm
  obtain ⟨x, hx, rfl⟩ := List.mem_map.1 hm
  obtain ⟨y, hy, hkey⟩ := (h.built packet (List.mem_of_getElem? hget)).staged x hx
  rw [h.numbered.message_eq hy hkey]
  exact hy

/-- The packet comes before 32767 more messages were sent on a channel of the
kind than the one it carries: its ids can still be told from their wire bits. -/
def Timely (s : Link) (kind : ChannelKind) (i : Nat) : Prop :=
  ∀ p ∈ s.packets[i]?, ∀ x ∈ p.staged.items, s.receiver.kind x.channel = some kind →
    (onChannel x.channel s.sent).length ≤ x.id.toNat + 32767

instance (s : Link) (kind : ChannelKind) (i : Nat) : Decidable (s.Timely kind i) :=
  inferInstanceAs (Decidable (∀ p ∈ s.packets[i]?, ∀ x ∈ p.staged.items, _ → _))

theorem Timely.near {set : ChannelSet} {s : Link} (h : s.Sound set) {kind : ChannelKind} {i : Nat} {packet : LinkPacket}
    (ht : s.Timely kind i) (hget : s.packets[i]? = some packet) :
    ∀ m ∈ packet.staged.items.map (Written.message (payloadOf s.sent)), set.kind m.channel = some kind →
      (onChannel m.channel s.sent).length ≤ m.id.toNat + 32767 := by
  intro m hm hmk
  obtain ⟨x, hx, rfl⟩ := List.mem_map.1 hm
  exact ht packet hget x hx (by rw [Channels.kind, h.receiverSet]; exact hmk)

/-! ## What the sender is told -/

/-- What a kind's messages are taken to be once their packet has arrived, and
so once they are released, they are. -/
structure Told (set : ChannelSet) (kind : ChannelKind) (got : Link → MessageKey → Prop) (s : Link) : Prop where
  arrived : ∀ p ∈ s.packets, p.arrived = true → ∀ x ∈ p.staged.items, set.kind x.channel = some kind → got s x.key
  released : ∀ m ∈ s.released, set.kind m.channel = some kind → m ∈ s.sent ∧ got s m.key

/-- It is enough that nothing got is lost, and that a packet read without
error has all its messages got. -/
theorem Told.step {set : ChannelSet} {kind : ChannelKind} {got : Link → MessageKey → Prop} {s s' : Link} {op : LinkOp}
    (h : s.Told set kind got) (heff : Effect s op s') (hkeep : ∀ key, got s key → got s' key)
    (hread : ∀ i packet, op = .read i → s.packets[i]? = some packet →
      (Channels.receiveAll (packet.staged.items.map (Written.message (payloadOf s.sent))) s.receiver).2.2 = true →
      ∀ x ∈ packet.staged.items, set.kind x.channel = some kind → got s' x.key) : s'.Told set kind got := by
  have harrived : SameArrivals s s' →
      ∀ p ∈ s'.packets, p.arrived = true → ∀ x ∈ p.staged.items, set.kind x.channel = some kind → got s' x.key := by
    intro harr p hp ha x hx hxk
    obtain ⟨p₀, hp₀, ha₀, hst⟩ := harr p hp ha
    exact hkeep _ (h.arrived p₀ hp₀ ha₀ x (by rw [hst]; exact hx) hxk)
  have hreleased : (∀ m ∈ s.sent, m ∈ s'.sent) → ∀ m ∈ s.released, set.kind m.channel = some kind →
      m ∈ s'.sent ∧ got s' m.key := by
    intro hsub m hm hmk
    obtain ⟨hmem, hgot⟩ := h.released m hm hmk
    exact ⟨hsub m hmem, hkeep _ hgot⟩
  cases heff with
  | quiet hop hr hs hd hrel harr =>
    exact ⟨harrived harr, by rw [hrel]; exact hreleased (by rw [hs]; exact fun _ hm => hm)⟩
  | sent m hid hr hs hd hrel harr =>
    exact ⟨harrived harr, by rw [hrel]; exact hreleased (by rw [hs]; exact fun _ hm => by simp [hm])⟩
  | read i packet r hget hrun hr hs hd hrel harr =>
    refine ⟨fun p hp ha x hx hxk => ?_, by rw [hrel]; exact hreleased (by rw [hs]; exact fun _ hm => hm)⟩
    rcases harr p hp ha with ⟨p₀, hp₀, ha₀, hst⟩ | ⟨hst, hok⟩
    · exact hkeep _ (h.arrived p₀ hp₀ ha₀ x (by rw [hst]; exact hx) hxk)
    · exact hread i packet rfl hget (by rw [hrun]; exact hok) x (by rw [← hst]; exact hx) hxk
  | acked i packet ms hp ha hms hr hs hd hrel harr =>
    refine ⟨harrived harr, fun m hm hmk => ?_⟩
    rw [hrel] at hm
    rcases List.mem_append.1 hm with hm | hm
    · exact hreleased (by rw [hs]; exact fun _ hm => hm) m hm hmk
    · obtain ⟨hmem, x, hx, hkey⟩ := hms m hm
      have hchan : x.channel = m.channel := congrArg MessageKey.channel hkey
      rw [hs, ← hkey]
      exact ⟨hmem, hkeep _ (h.arrived packet hp ha x hx (by rw [hchan]; exact hmk))⟩

end Link

end HexNet
