/-
What a receiver hands to the application, whatever frames arrive.

Nothing is assumed of the sender here: any frames, on any channels, in any
order, repeated or contradicting each other, as long as each id is near enough
to its channel's reference to be resolved and no id has wrapped. The ordered
channels share the hold list and its arena with each other; every entry of it
is ahead of what its channel has delivered (`OrderedLog.held`), so the
expected message is never stuck behind it, and the arena gives back the
payload that was held.
-/
import HexNet.Ordered
import HexNet.Unordered

namespace HexNet

open BitFields Channels

/-- The receiving side of a connection's channels, with what it was given and
what it handed over. -/
structure Inbox where
  channels : Channels
  /-- The frames that arrived. -/
  arrived : List Message
  /-- The messages `on_message` was called with. -/
  delivered : List Message

/-- A frame at a reader's position. -/
structure Arrival where
  reader : BitReader
  frame : Message

namespace Inbox

def next (s : Inbox) (a : Arrival) : Option Inbox :=
  match s.channels.readMessage.run a.reader with
  | .ok v _ => some ⟨v.1, s.arrived ++ [a.frame], s.delivered ++ v.2⟩
  | .error _ _ => none

def sys (set : ChannelSet) : Lts.Sys Inbox Arrival := .ofNext ⟨.new set, [], []⟩ next

/-- The frame is the next thing to be read, its id is within 32767 of its
channel's reference, and its channel's ids have not wrapped. A channel
without ids gives every message the first. -/
structure Within (s : Inbox) (a : Arrival) (kind : ChannelKind) : Prop where
  kind_eq : s.channels.kind a.frame.channel = some kind
  len_le : a.frame.payload.length ≤ maxMessage
  sees : a.reader.Sees (bodyFields a.reader.bitsRead kind a.frame)
  ahead : kind.needsId = true → a.frame.id.toNat ≤ (s.channels.reference a.frame.channel kind).toNat + 32767
  behind : kind.needsId = true → (s.channels.reference a.frame.channel kind).toNat ≤ a.frame.id.toNat + 32767
  unnumbered : kind.needsId = false → a.frame.id = .first
  unwrapped : kind = .reliableOrdered → (onChannel a.frame.channel s.delivered).length < 2 ^ 32

def Admits (s : Inbox) (a : Arrival) : Prop := ∃ kind, s.Within a kind

instance (r : BitReader) (fs : List (Nat × Nat)) : Decidable (r.Sees fs) :=
  decidable_of_iff ((r.scratch = LeBytes.leNat r.buffer / 2 ^ r.bitsRead % 2 ^ r.scratchBits ∧
      8 * r.byteIndex = r.bitsRead + r.scratchBits ∧ r.byteIndex ≤ r.buffer.length) ∧
      r.bitsRead + width fs ≤ 8 * r.buffer.length ∧
      LeBytes.leNat r.buffer / 2 ^ r.bitsRead % 2 ^ width fs = pack fs)
    ⟨fun h => ⟨⟨h.1.1, h.1.2.1, h.1.2.2⟩, h.2.1, h.2.2⟩, fun h => ⟨⟨h.pending, h.index, h.room⟩, h.fits, h.begins⟩⟩

instance (s : Inbox) (a : Arrival) (kind : ChannelKind) : Decidable (s.Within a kind) :=
  decidable_of_iff (s.channels.kind a.frame.channel = some kind ∧ a.frame.payload.length ≤ maxMessage ∧
      a.reader.Sees (bodyFields a.reader.bitsRead kind a.frame) ∧
      (kind.needsId = true → a.frame.id.toNat ≤ (s.channels.reference a.frame.channel kind).toNat + 32767) ∧
      (kind.needsId = true → (s.channels.reference a.frame.channel kind).toNat ≤ a.frame.id.toNat + 32767) ∧
      (kind.needsId = false → a.frame.id = .first) ∧
      (kind = .reliableOrdered → (onChannel a.frame.channel s.delivered).length < 2 ^ 32))
    ⟨fun h => ⟨h.1, h.2.1, h.2.2.1, h.2.2.2.1, h.2.2.2.2.1, h.2.2.2.2.2.1, h.2.2.2.2.2.2⟩,
      fun h => ⟨h.kind_eq, h.len_le, h.sees, h.ahead, h.behind, h.unnumbered, h.unwrapped⟩⟩

instance (s : Inbox) (a : Arrival) : Decidable (s.Admits a) :=
  match hk : s.channels.kind a.frame.channel with
  | none => .isFalse fun ⟨_, h⟩ => by cases hk.symm.trans h.kind_eq
  | some kind =>
    decidable_of_iff (s.Within a kind) ⟨fun h => ⟨kind, h⟩, fun ⟨_, h⟩ => by cases hk.symm.trans h.kind_eq; exact h⟩

/-- Reading a frame is handing it to its channel under its own id. -/
theorem Within.next {s s' : Inbox} {a : Arrival} {kind : ChannelKind} (h : s.Within a kind)
    (hs : s.next a = some s') :
    s' = ⟨(s.channels.dispatch a.frame.channel kind a.frame.id a.frame.payload).1, s.arrived ++ [a.frame],
      s.delivered ++ (s.channels.dispatch a.frame.channel kind a.frame.id a.frame.payload).2⟩ := by
  have hid : s.channels.resolveId a.frame.channel kind a.frame.id.toWire = some a.frame.id := by
    unfold resolveId
    split
    next hneeds =>
      have hbehind := h.behind hneeds
      exact MessageId.fromWire_toWire (h.ahead hneeds) (by omega)
    next hnone => rw [h.unnumbered (by simpa using hnone)]
  have hrecv : s.channels.receive a.frame =
      some (s.channels.dispatch a.frame.channel kind a.frame.id a.frame.payload) := by
    simp [receive, h.kind_eq, hid]
  have hsees := h.sees
  rw [← List.append_nil (bodyFields _ _ _)] at hsees
  obtain ⟨r, hrun, -⟩ := readMessage_parses _ h.kind_eq h.len_le hrecv a.reader [] hsees rfl
  rw [Inbox.next, hrun] at hs
  exact (Option.some.inj hs).symm

end Inbox

/-! ## The ordered channels and the hold list -/

/-- The ordered channels have delivered `0, 1, 2, ..`, and each entry of the
hold list is a frame that arrived, ahead of its channel's next. -/
structure OrderedLog (set : ChannelSet) (arrived : List Message) (payload : MessageKey → List UInt8) (c : Channels)
    (delivered : List Message) : Prop where
  set_eq : c.set = set
  ids : ∀ channel, set.kind channel = some .reliableOrdered →
    (onChannel channel delivered).map (fun m => m.id.toNat) = List.range (onChannel channel delivered).length ∧
      (c.receivers channel).expected = UInt32.ofNat (onChannel channel delivered).length
  owns : c.recvArena.Owns (c.held.items.map fun h => (h.bytes, payload h.key))
  held : ∀ h ∈ c.held.items, set.kind h.channel = some .reliableOrdered ∧
    ⟨h.channel, h.id, payload h.key⟩ ∈ arrived ∧ (onChannel h.channel delivered).length ≤ h.id.toNat ∧
    (payload h.key).length ≤ maxMessage
  nodup : (c.held.items.map Held.key).Nodup

section

variable {set : ChannelSet} {arrived : List Message} {payload : MessageKey → List UInt8} {c : Channels}
  {delivered : List Message}

/-- The next message of an ordered channel is delivered, and the hold list
keeps what is not it. -/
theorem OrderedLog.advance (h : OrderedLog set arrived payload c delivered) {m : Message}
    (hid : m.id.toNat = (onChannel m.channel delivered).length)
    {held : FixedVec Held maxHeld} {arena : Arena arenaBlocks}
    (howns : arena.Owns (held.items.map fun h => (h.bytes, payload h.key)))
    (hsub : held.items.Sublist c.held.items) (hne : ∀ e ∈ held.items, e.key ≠ m.key) :
    OrderedLog set arrived payload (c.advanceTo m held arena) (delivered ++ [m]) := by
  refine ⟨h.set_eq, fun channel hk => ?_, howns, fun e he => ?_, h.nodup.sublist (hsub.map Held.key)⟩
  · obtain ⟨hids, hexp⟩ := h.ids channel hk
    by_cases hc : m.channel = channel
    · subst hc
      rw [onChannel_snoc_of_eq rfl, List.map_append, hids, List.length_append, List.length_singleton, List.range_succ,
        List.map_singleton, hid]
      refine ⟨rfl, ?_⟩
      have hself : ((c.advanceTo m held arena).receivers m.channel).expected = m.id.next := by
        simp [advanceTo, setReceiver]
      rw [hself, MessageId.next, ← UInt32.ofNat_toNat (x := m.id), hid, UInt32.ofNat_add]
      rfl
    · rw [onChannel_snoc_of_ne hc]
      refine ⟨hids, ?_⟩
      rw [← hexp, advanceTo]
      exact congrArg ReceiverState.expected (setReceiver_other c (Ne.symm hc) _)
  · obtain ⟨hek, harrived, hle, hlen⟩ := h.held e (hsub.subset he)
    refine ⟨hek, harrived, ?_, hlen⟩
    by_cases hc : m.channel = e.channel
    · rw [onChannel_snoc_of_eq hc, List.length_append, List.length_singleton]
      rw [← hc, ← hid] at hle ⊢
      have hneq : e.id ≠ m.id := fun heq => hne e he (by rw [Held.key, Message.key, hc, heq])
      have : e.id.toNat ≠ m.id.toNat := fun heq => hneq (UInt32.toNat_inj.1 heq)
      omega
    · rw [onChannel_snoc_of_ne hc]
      exact hle

theorem OrderedLog.takeHeld (h : OrderedLog set arrived payload c delivered) {channel : Nat} {entry : Held}
    (hnext : c.nextHeld channel = some entry) :
    ∃ m ∈ arrived, m.channel = channel ∧ m.id = entry.id ∧ c.recvArena.load entry.bytes maxMessage = some m.payload ∧
      OrderedLog set arrived payload (c.takeHeld channel entry) (delivered ++ [m]) := by
  obtain ⟨hkey, before, after, hitems, herase⟩ := nextHeld_split hnext
  have hmem : entry ∈ c.held.items := by rw [hitems]; simp
  obtain ⟨hkind, harrived, hle, hlen⟩ := h.held entry hmem
  obtain rfl : entry.channel = channel := congrArg MessageKey.channel hkey
  have hexp : entry.id = (c.receivers entry.channel).expected := congrArg MessageKey.id hkey
  have hid : entry.id.toNat = (onChannel entry.channel delivered).length := by
    -- No smaller than the count, and the count cut to 32 bits.
    have hcut := congrArg UInt32.toNat (hexp.trans (h.ids entry.channel hkind).2)
    rw [UInt32.toNat_ofNat'] at hcut
    have := Nat.mod_le (onChannel entry.channel delivered).length (2 ^ 32)
    omega
  have hload : c.recvArena.load entry.bytes maxMessage = some (payload entry.key) :=
    Arena.load_owned h.owns (List.mem_map.2 ⟨entry, hmem, rfl⟩) hlen
  have howns := h.owns
  rw [hitems, List.map_append, List.map_cons] at howns
  have hfresh : ∀ e ∈ before ++ after, e.key ≠ entry.key := by
    intro e he heq
    have hnodup := h.nodup
    rw [hitems, List.map_append, List.map_cons] at hnodup
    refine (List.nodup_cons.1 (List.perm_middle.nodup_iff.1 hnodup)).1 ?_
    rw [← heq, ← List.map_append]
    exact List.mem_map_of_mem he
  refine ⟨⟨entry.channel, entry.id, payload entry.key⟩, harrived, rfl, rfl, hload, ?_⟩
  have htake : c.takeHeld entry.channel entry =
      c.advanceTo ⟨entry.channel, entry.id, payload entry.key⟩ (c.held.removeFirst fun e => e.key == entry.key)
        (c.recvArena.release entry.bytes) := rfl
  rw [htake]
  refine h.advance hid ?_ List.eraseP_sublist (by rw [herase]; exact hfresh)
  rw [herase, List.map_append]
  exact Arena.release_owns howns

/-- What flushing hands over arrived, and is its channel's next messages. -/
theorem OrderedLog.flush (channel : Nat) (fuel : Nat) (h : OrderedLog set arrived payload c delivered) :
    OrderedLog set arrived payload (flushOrdered channel fuel c).1 (delivered ++ (flushOrdered channel fuel c).2) ∧
      ∀ m ∈ (flushOrdered channel fuel c).2, m ∈ arrived := by
  refine flushOrdered_rule (P := fun c out => OrderedLog set arrived payload c (delivered ++ out) ∧
    ∀ m ∈ out, m ∈ arrived) (fun {c out entry} h hnext => ?_) fuel [] ⟨by simpa using h, by simp⟩
  obtain ⟨m, hm, rfl, hid, hload, hlog⟩ := h.1.takeHeld hnext
  rw [hload, Option.map_some, Option.toList_some, ← hid, ← List.append_assoc]
  refine ⟨hlog, fun x hx => ?_⟩
  rcases List.mem_append.1 hx with hx | hx
  · exact h.2 x hx
  · rwa [List.mem_singleton.1 hx]

/-- More may arrive, and payloads be chosen elsewhere. -/
theorem OrderedLog.mono (h : OrderedLog set arrived payload c delivered) (m : Message) :
    OrderedLog set (arrived ++ [m]) payload c delivered :=
  ⟨h.set_eq, h.ids, h.owns, fun e he => by
    obtain ⟨hk, ha, hrest⟩ := h.held e he
    exact ⟨hk, List.mem_append_left _ ha, hrest⟩, h.nodup⟩

theorem OrderedLog.hold (h : OrderedLog set arrived payload c delivered) {m : Message} (hm : m ∈ arrived)
    (hkind : set.kind m.channel = some .reliableOrdered) (hle : (onChannel m.channel delivered).length ≤ m.id.toNat)
    (hlen : m.payload.length ≤ maxMessage) (hnew : ∀ e ∈ c.held.items, e.key ≠ m.key) (hfull : c.held.isFull = false)
    {arena : Arena arenaBlocks} {r : ByteRef} (hstore : c.recvArena.store m.payload = (arena, some r)) :
    OrderedLog set arrived (Function.update payload m.key m.payload)
      { c with recvArena := arena, held := (c.held.push ⟨m.channel, m.id, r⟩).1 } delivered := by
  have hmax : maxMessage = 1024 := rfl
  have howns : arena.Owns ((c.held.items.map fun h => (h.bytes, payload h.key)) ++ [(r, m.payload)]) := by
    rcases Arena.store_cases h.owns m.payload with hnone | ⟨arena', r', hsome, howns⟩
    · cases hnone.symm.trans hstore
    · cases hsome.symm.trans hstore
      exact howns
  obtain ⟨hitems, -⟩ := FixedVec.push_of_not_full hfull ⟨m.channel, m.id, r⟩
  have hself : Function.update payload m.key m.payload (Held.key ⟨m.channel, m.id, r⟩) = m.payload :=
    Function.update_self ..
  have hother : ∀ e ∈ c.held.items, Function.update payload m.key m.payload e.key = payload e.key :=
    fun e he => Function.update_of_ne (hnew e he) ..
  refine ⟨h.set_eq, h.ids, ?_, ?_, ?_⟩
  · dsimp only
    rw [hitems, List.map_append, List.map_singleton, hself]
    rwa [List.map_congr_left fun e he => by rw [hother e he]]
  · intro e he
    dsimp only at he
    rw [hitems, List.mem_append, List.mem_singleton] at he
    rcases he with he | rfl
    · rw [hother e he]
      exact h.held e he
    · rw [hself]
      exact ⟨hkind, hm, hle, hlen⟩
  · dsimp only
    rw [hitems, List.map_append, List.nodup_append]
    refine ⟨h.nodup, by simp, fun x hx y hy => ?_⟩
    obtain ⟨e, he, rfl⟩ := List.mem_map.1 hx
    rw [List.map_singleton, List.mem_singleton] at hy
    rw [hy]
    exact hnew e he

/-- **An ordered frame arriving**, whatever it carries. -/
theorem OrderedLog.dispatch (h : OrderedLog set arrived payload c delivered) (hset : c.Settled) {m : Message}
    (hkind : set.kind m.channel = some .reliableOrdered) (hlen : m.payload.length ≤ maxMessage)
    (hwrap : (onChannel m.channel delivered).length < 2 ^ 32)
    (hahead : m.id.toNat ≤ (c.receivers m.channel).expected.toNat + 32767)
    (hbehind : (c.receivers m.channel).expected.toNat ≤ m.id.toNat + 32767) :
    (∃ payload', OrderedLog set (arrived ++ [m]) payload' (c.dispatch m.channel .reliableOrdered m.id m.payload).1
        (delivered ++ (c.dispatch m.channel .reliableOrdered m.id m.payload).2)) ∧
      (c.dispatch m.channel .reliableOrdered m.id m.payload).1.Settled ∧
      ∀ x ∈ (c.dispatch m.channel .reliableOrdered m.id m.payload).2, x ∈ arrived ++ [m] := by
  have hexp : (c.receivers m.channel).expected.toNat = (onChannel m.channel delivered).length := by
    rw [(h.ids m.channel hkind).2, UInt32.toNat_ofNat', Nat.mod_eq_of_lt hwrap]
  have hm : m ∈ arrived ++ [m] := by simp
  have hlog := h.mono m
  have hstep := c.dispatch_orderedStep (m := m) (by omega) (by omega)
  generalize c.dispatch m.channel .reliableOrdered m.id m.payload = r at hstep
  cases hstep with
  | late => exact ⟨⟨payload, by simpa using hlog⟩, hset, by simp⟩
  | again => exact ⟨⟨payload, by simpa using hlog⟩, hset, by simp⟩
  | turn hid =>
    have hcount : m.id.toNat = (onChannel m.channel delivered).length := by rw [hid, hexp]
    have hnext := hlog.advance hcount hlog.owns (List.Sublist.refl _) (hset.fresh hid)
    obtain ⟨hflush, harrived⟩ := hnext.flush m.channel c.held.items.length
    refine ⟨⟨payload, by rwa [List.append_assoc] at hflush⟩, hset.turn m, fun x hx => ?_⟩
    rcases List.mem_cons.1 hx with rfl | hx
    · exact hm
    · exact harrived x hx
  | dropped hgt hnew hno =>
    have hmax : maxMessage = 1024 := rfl
    have harena : ∀ {arena}, c.held.isFull = true ∧ arena = c.recvArena ∨
        c.held.isFull = false ∧ c.recvArena.store m.payload = (arena, none) → arena = c.recvArena := by
      rintro arena (⟨-, rfl⟩ | ⟨-, hstore⟩)
      · rfl
      · rcases Arena.store_cases h.owns m.payload with hnone | ⟨arena', r', hsome, -⟩
        · cases hnone.symm.trans hstore
          rfl
        · cases hsome.symm.trans hstore
    obtain rfl := harena hno
    refine ⟨⟨payload, ?_⟩, hset, by simp⟩
    rw [List.append_nil]
    exact ⟨hlog.set_eq, hlog.ids, hlog.owns, hlog.held, hlog.nodup⟩
  | held hgt hnew hfull hstore =>
    refine ⟨⟨Function.update payload m.key m.payload, ?_⟩, hset.push hgt hfull _ _, by simp⟩
    rw [List.append_nil]
    exact hlog.hold hm hkind (by omega) hlen hnew hfull hstore

theorem OrderedLog.other (h : OrderedLog set arrived payload c delivered) (hset : c.Settled) {m : Message}
    {kind : ChannelKind} (hkind : set.kind m.channel = some kind) (hne : kind ≠ .reliableOrdered) :
    OrderedLog set (arrived ++ [m]) payload (c.dispatch m.channel kind m.id m.payload).1
        (delivered ++ (c.dispatch m.channel kind m.id m.payload).2) ∧
      (c.dispatch m.channel kind m.id m.payload).1.Settled := by
  obtain ⟨hexp, hheld, harena, -⟩ := dispatch_other hne c m.channel m.id m.payload
  have hon : ∀ channel, set.kind channel = some .reliableOrdered →
      onChannel channel (delivered ++ (c.dispatch m.channel kind m.id m.payload).2) = onChannel channel delivered := by
    intro channel hk
    refine onChannel_other (dispatch_own c m.channel kind m.id m.payload).2 (fun hc => hne ?_) delivered
    rw [hc] at hk
    exact Option.some.inj (hkind.symm.trans hk)
  have hlog := h.mono m
  refine ⟨⟨(dispatch_set ..).trans h.set_eq, fun channel hk => ?_, ?_, fun e he => ?_, ?_⟩, fun e he => ?_⟩
  · rw [hon channel hk, hexp]
    exact h.ids channel hk
  · rw [hheld, harena]
    exact h.owns
  · rw [hheld] at he
    rw [hon e.channel (h.held e he).1]
    exact hlog.held e he
  · rw [hheld]
    exact h.nodup
  · rw [hheld] at he
    rw [hexp]
    exact hset e he

end

/-! ## The other channels -/

/-- What an unordered or sequenced channel remembers of the messages it
delivered, and what is true of their ids. -/
def ReceiverState.Follows (s : ReceiverState) (log : List Message) : ChannelKind → Prop
  | .reliableUnordered => s.Filters (fun i => ∃ m ∈ log, m.id.toNat = i) ∧ (log.map (·.id)).Nodup
  | .unreliableSequenced =>
    (s.hasNewest = false → log = []) ∧ (∀ m ∈ log, m.id.toNat ≤ s.newest.toNat) ∧
      (log.map (·.id.toNat)).Pairwise (· < ·)
  | .unreliable | .reliableOrdered => True

/-- A frame of an unordered or sequenced channel is discarded, or delivered
as it is, and the channel follows. -/
theorem ReceiverState.Follows.dispatch {c : Channels} {m : Message} {log : List Message} {kind : ChannelKind}
    (h : (c.receivers m.channel).Follows log kind) (hne : kind ≠ .reliableOrdered)
    (hahead : kind.needsId = true → m.id.toNat ≤ (c.reference m.channel kind).toNat + 32767)
    (hbehind : kind.needsId = true → (c.reference m.channel kind).toNat ≤ m.id.toNat + 32767) :
    ((c.dispatch m.channel kind m.id m.payload).1.receivers m.channel).Follows
        (log ++ (c.dispatch m.channel kind m.id m.payload).2) kind ∧
      ∀ x ∈ (c.dispatch m.channel kind m.id m.payload).2, x = m := by
  cases kind with
  | reliableOrdered => exact absurd rfl hne
  | unreliable =>
    have hrun : c.dispatch m.channel .unreliable m.id m.payload = (c, [m]) := by
      rw [Channels.dispatch, classify]
      exact if_neg fun hcon => by cases hcon.1
    rw [hrun]
    exact ⟨trivial, by simp⟩
  | unreliableSequenced =>
    have hahead : m.id.toNat ≤ (c.receivers m.channel).newest.toNat + 32767 := hahead rfl
    have hbehind : (c.receivers m.channel).newest.toNat ≤ m.id.toNat + 32767 := hbehind rfl
    obtain ⟨hfresh, hle, hmono⟩ := h
    rw [dispatch_sequenced]
    split
    · exact ⟨by simpa using ⟨hfresh, hle, hmono⟩, by simp⟩
    next hnew =>
      rw [MessageId.distanceFrom_eq (by omega) (by omega)] at hnew
      have hself : ∀ state, (c.setReceiver m.channel state).receivers m.channel = state :=
        fun state => Function.update_self ..
      have hlt : ∀ x ∈ log, x.id.toNat < m.id.toNat := by
        intro x hx
        have hx' := hle x hx
        cases hnewest : (c.receivers m.channel).hasNewest with
        | false =>
          rw [hfresh hnewest] at hx
          cases hx
        | true =>
          have hgt : ¬ (m.id.toNat : Int) - (c.receivers m.channel).newest.toNat ≤ 0 := fun hle => hnew ⟨hnewest, hle⟩
          omega
      dsimp only
      rw [hself]
      refine ⟨⟨by simp, fun x hx => ?_, ?_⟩, by simp⟩
      · rcases List.mem_append.1 hx with hx | hx
        · exact (hlt x hx).le
        · rw [List.mem_singleton.1 hx]
      · rw [List.map_append, List.pairwise_append]
        refine ⟨hmono, by simp, fun i hi j hj => ?_⟩
        obtain ⟨x, hx, rfl⟩ := List.mem_map.1 hi
        obtain rfl : j = m.id.toNat := by simpa using hj
        exact hlt x hx
  | reliableUnordered =>
    have hahead : m.id.toNat ≤ (c.receivers m.channel).seenNewest.toNat + 32767 := hahead rfl
    have hbehind : (c.receivers m.channel).seenNewest.toNat ≤ m.id.toNat + 32767 := hbehind rfl
    obtain ⟨hfilters, honce⟩ := h
    obtain ⟨hfilters', hjudge⟩ := hfilters.judge m.id (by omega) (by omega)
    have hself : ∀ state, (c.setReceiver m.channel state).receivers m.channel = state :=
      fun state => Function.update_self ..
    rw [dispatch_unordered]
    dsimp only
    rw [hself]
    split
    next haccept =>
      have hnew := (hjudge.1 haccept).1
      refine ⟨⟨hfilters'.congr fun i => ?_, ?_⟩, by simp⟩
      · simp [haccept, or_and_right, exists_or, or_comm, eq_comm]
      · rw [List.map_append, List.nodup_append]
        refine ⟨honce, by simp, fun i hi j hj hij => hnew ?_⟩
        obtain ⟨x, hx, rfl⟩ := List.mem_map.1 hi
        obtain rfl : j = m.id := by simpa using hj
        exact ⟨x, hx, congrArg UInt32.toNat hij⟩
    next hrefuse =>
      refine ⟨?_, by simp⟩
      rw [List.append_nil]
      exact ⟨hfilters'.congr fun i => by simp [hrefuse], honce⟩

/-! ## Runs -/

namespace Inbox

/-- What holds of a receiver after any frames. -/
structure Kept (set : ChannelSet) (s : Inbox) : Prop where
  ordered : ∃ payload, OrderedLog set s.arrived payload s.channels s.delivered
  settled : s.channels.Settled
  genuine : ∀ m ∈ s.delivered, m ∈ s.arrived
  follows : ∀ channel kind, set.kind channel = some kind →
    (s.channels.receivers channel).Follows (onChannel channel s.delivered) kind

theorem Kept.step {set : ChannelSet} {s s' : Inbox} {a : Arrival} (h : s.Kept set) (ha : s.Admits a)
    (hs : s.next a = some s') : s'.Kept set := by
  obtain ⟨kind, hwithin⟩ := ha
  obtain ⟨payload, hlog⟩ := h.ordered
  have hkind : set.kind a.frame.channel = some kind := by rw [← hlog.set_eq]; exact hwithin.kind_eq
  rw [hwithin.next hs]
  obtain ⟨hrecv, hout⟩ := dispatch_own s.channels a.frame.channel kind a.frame.id a.frame.payload
  have hothers : ∀ channel k, channel ≠ a.frame.channel → set.kind channel = some k →
      ((s.channels.dispatch a.frame.channel kind a.frame.id a.frame.payload).1.receivers channel).Follows
        (onChannel channel (s.delivered ++
          (s.channels.dispatch a.frame.channel kind a.frame.id a.frame.payload).2)) k := by
    intro channel k hne hk
    rw [hrecv channel hne, onChannel_other hout hne]
    exact h.follows channel k hk
  by_cases hord : kind = .reliableOrdered
  · subst hord
    obtain ⟨hlog', hsettled, harrived⟩ := hlog.dispatch h.settled hkind hwithin.len_le (hwithin.unwrapped rfl)
      (hwithin.ahead rfl) (hwithin.behind rfl)
    refine ⟨hlog', hsettled, fun m hm => ?_, fun channel k hk => ?_⟩
    · rcases List.mem_append.1 hm with hm | hm
      · exact List.mem_append_left _ (h.genuine m hm)
      · exact harrived m hm
    · by_cases hc : channel = a.frame.channel
      · subst hc
        cases hkind.symm.trans hk
        trivial
      · exact hothers channel k hc hk
  · obtain ⟨hlog', hsettled⟩ := hlog.other (m := a.frame) h.settled hkind hord
    obtain ⟨hfollows, hself⟩ := (h.follows _ _ hkind).dispatch (m := a.frame) hord hwithin.ahead hwithin.behind
    refine ⟨⟨payload, hlog'⟩, hsettled, fun m hm => ?_, fun channel k hk => ?_⟩
    · rcases List.mem_append.1 hm with hm | hm
      · exact List.mem_append_left _ (h.genuine m hm)
      · rw [hself m hm]
        exact List.mem_append_right _ (List.mem_singleton_self _)
    · by_cases hc : channel = a.frame.channel
      · subst hc
        cases hkind.symm.trans hk
        rw [onChannel_own hout]
        exact hfollows
      · exact hothers channel k hc hk

theorem reach_kept {set : ChannelSet} {s : Inbox} (h : Lts.Reach (sys set) Admits s) : s.Kept set := by
  refine Lts.Reach.invariant (P := Kept set) ?_ ?_ h
  · rintro _ rfl
    refine ⟨⟨fun _ => [], rfl, fun _ _ => ⟨rfl, rfl⟩, Arena.new_owns (by decide) (by decide), fun e he => (by cases he),
      .nil⟩, fun e he => (by cases he), fun m hm => (by cases hm), fun channel kind _ => ?_⟩
    cases kind with
    | unreliable => trivial
    | reliableOrdered => trivial
    | unreliableSequenced => exact ⟨fun _ => rfl, fun m hm => (by cases hm), .nil⟩
    | reliableUnordered => exact ⟨⟨fun _ => ⟨rfl, fun i ⟨m, hm, _⟩ => by cases hm⟩, fun hs => (by cases hs)⟩, .nil⟩
  · intro s a s' _ hs ha hnext
    exact hs.step ha hnext

/-- **The discipline of delivery.** Whatever frames arrive, on whatever mix of
channels, everything delivered is a frame that arrived, with its id and its
bytes; an ordered channel delivers `0, 1, 2, ..`; an unordered one never an id
twice; and a sequenced one only increasing ids. -/
theorem delivery_discipline {set : ChannelSet} {s : Inbox} (h : Lts.Reach (sys set) Admits s) :
    (∀ m ∈ s.delivered, m ∈ s.arrived) ∧ ∀ channel,
      (set.kind channel = some .reliableOrdered →
        (onChannel channel s.delivered).map (·.id.toNat) = List.range (onChannel channel s.delivered).length) ∧
      (set.kind channel = some .reliableUnordered → ((onChannel channel s.delivered).map (·.id)).Nodup) ∧
      (set.kind channel = some .unreliableSequenced →
        ((onChannel channel s.delivered).map (·.id.toNat)).Pairwise (· < ·)) := by
  have hkept := reach_kept h
  obtain ⟨payload, hlog⟩ := hkept.ordered
  refine ⟨hkept.genuine, fun channel => ⟨fun hk => (hlog.ids channel hk).1, fun hk => ?_, fun hk => ?_⟩⟩
  · exact (hkept.follows channel _ hk).2
  · exact (hkept.follows channel _ hk).2.2

/-- A frame of one byte on channel 0, with the bits it arrives as. -/
def oneByte (id : MessageId) (byte : UInt8) : Arrival :=
  ⟨.new [(8 * id).toUInt8, 0, 8, 0, byte], ⟨0, id, [byte]⟩⟩

/-- Two frames in the wrong order, the first of them again with other bytes. -/
theorem delivery_discipline_early :
    ∃ s, Lts.Reach (sys orderedOnly) Admits s ∧
      s.delivered = [⟨0, 0, [9]⟩, ⟨0, 1, [7]⟩] ∧ ∀ m ∈ s.delivered, m ∈ s.arrived := by
  have hrun : ∃ s, Lts.Reach (sys orderedOnly) Admits s ∧
      s.delivered = [⟨0, 0, [9]⟩, ⟨0, 1, [7]⟩] :=
    Lts.Reach.ofRun Admits [oneByte 1 7, oneByte 1 8, oneByte 0 9, oneByte 1 8] _ (by decide +kernel)
  obtain ⟨s, hreach, hdelivered⟩ := hrun
  exact ⟨s, hreach, hdelivered, (delivery_discipline hreach).1⟩

end Inbox
end HexNet
