/-
The channels under any order of calls, the outcomes of packets included.

`Channels.letters` is the send queue as its caller knows it: each message
pending, under its key, with the bytes it was given. A send appends to it, an
outcome that releases a key takes out the first message under that key, and
every other call leaves it (`Queued.after`), whatever arguments the calls have:
ids wrap, so a key may name two pending messages, and a record may name a key
that is pending no more. `send_exact` is what follows for a run.
-/
import HexNet.ChannelFacts
import HexNet.Lib.Lts

namespace HexNet
namespace Channels

/-! ## The send queue as the caller knows it -/

/-- The messages pending, each with the bytes the arena has for it. -/
def letters (c : Channels) : List (MessageKey × List UInt8) :=
  (queue c.pending.items).map fun e => (e.1, c.contents e)

/-- What a release of `key` leaves of the messages. -/
def unposted (letters : List (MessageKey × List UInt8)) (key : MessageKey) : List (MessageKey × List UInt8) :=
  letters.eraseP fun e => e.1 == key

theorem Stocked.letters_eq {c : Channels} {payload : MessageKey × ByteRef → List UInt8} (h : c.Stocked payload) :
    c.letters = (queue c.pending.items).map fun e => (e.1, payload e) := by
  refine List.map_congr_left fun e he => ?_
  obtain ⟨m, hm, hkey, hbytes⟩ := mem_queue.1 he
  have hcontents := h.contents_eq hm
  rw [hkey, hbytes] at hcontents
  rw [hcontents]

theorem letters_of_queue {c c' : Channels} (hqueue : queue c'.pending.items = queue c.pending.items)
    (harena : c'.sendArena = c.sendArena) : c'.letters = c.letters := by
  simp only [letters, contents, hqueue, harena]

theorem releasePending_items (c : Channels) (key : MessageKey) :
    (c.releasePending key).pending.items = c.pending.items.eraseP fun m => m.key == key := by
  unfold releasePending
  split
  next hfind => exact (List.eraseP_of_forall_not fun m hm => List.find?_eq_none.1 hfind m hm).symm
  · rfl

theorem Intact.letters_releasePending {c : Channels} (h : c.Intact) (key : MessageKey) :
    (c.releasePending key).letters = unposted c.letters key := by
  rw [(h.releasePending key).letters_eq, releasePending_items, unposted, letters, queue, queue, List.map_map,
    List.map_map, List.eraseP_map]
  rfl

theorem Intact.letters_send {c c' : Channels} (h : c.Intact) {channel : Nat} {bytes : List UInt8}
    (hsend : c.send channel bytes = (c', .ok ())) :
    c'.letters = c.letters ++ [(⟨channel, c.nextIds channel⟩, bytes)] := by
  obtain ⟨r, hitems, -, hnew, hold⟩ := h.send_ok hsend
  have hkept : (queue c.pending.items).map (fun e => (e.1, c'.contents e)) = c.letters := by
    refine List.map_congr_left fun ⟨key, r⟩ he => ?_
    obtain ⟨m, hm, rfl, rfl⟩ := mem_queue.1 he
    rw [hold m hm]
  rw [letters, hitems, queue, List.map_append, List.map_append, ← hkept]
  simp only [List.map_cons, List.map_nil, hnew]
  rfl

/-- When a send succeeds. -/
theorem Intact.send_ok_iff {c : Channels} (h : c.Intact) (channel : Nat) (bytes : List UInt8) :
    (c.send channel bytes).2 = .ok () ↔ bytes.length ≤ maxMessage ∧ (c.kind channel).isSome ∧
      c.pending.items.length < maxPending ∧ Arena.blocksFor bytes.length ≤ c.sendArena.freeCount := by
  have hsmall : maxMessage = 1024 := rfl
  have hle := c.pending.le
  unfold Channels.send
  split
  next hlong => exact iff_of_false (fun hok => by cases hok) (by omega)
  next hlong =>
  split
  next hnone =>
    refine iff_of_false (fun hok => by cases hok) fun hall => ?_
    rw [Option.isNone_iff_eq_none] at hnone
    rw [hnone] at hall
    exact Bool.false_ne_true hall.2.1
  next hsome =>
  split
  next hfull =>
    have hlen : c.pending.items.length = maxPending := by simpa [FixedVec.isFull] using hfull
    exact iff_of_false (fun hok => by cases hok) (by omega)
  next hfull =>
  have hroom : c.pending.items.length < maxPending := by
    have hlen : c.pending.items.length ≠ maxPending := by simpa [FixedVec.isFull] using hfull
    omega
  by_cases hfree : Arena.blocksFor bytes.length ≤ c.sendArena.freeCount
  · obtain ⟨a, r, hstore, -, -⟩ := Arena.store_owns h.owns (by omega) hfree
    obtain ⟨-, hpushed⟩ := FixedVec.push_of_not_full (FixedVec.isFull_eq_false hroom) ⟨channel, c.nextIds channel, r, false⟩
    rw [hstore]
    simp only [hpushed, if_true]
    refine iff_of_true trivial ⟨by omega, ?_, hroom, hfree⟩
    simpa [Option.isSome_iff_ne_none] using hsome
  · rw [Arena.store_eq_none (.inr (by omega))]
    exact iff_of_false (fun hok => by cases hok) (by omega)

/-! ## The hold list and its arena -/

/-- Every held message is live in the receive arena, with bytes that `S` said on
its channel. -/
def Keeps (S : Nat → List UInt8 → Prop) (c : Channels) : Prop :=
  ∃ live : List (ByteRef × List UInt8), c.recvArena.Owns live ∧
    List.Forall₂ (fun h e => e.1 = h.bytes ∧ S h.channel e.2) c.held.items live

section

variable {S : Nat → List UInt8 → Prop}

theorem new_keeps (S : Nat → List UInt8 → Prop) (set : ChannelSet) : (Channels.new set).Keeps S :=
  ⟨[], Arena.new_owns (by decide) (by decide), .nil⟩

theorem Keeps.mono {S' : Nat → List UInt8 → Prop} {c : Channels} (h : c.Keeps S)
    (hS : ∀ channel bytes, S channel bytes → S' channel bytes) : c.Keeps S' := by
  obtain ⟨live, howns, hheld⟩ := h
  exact ⟨live, howns, hheld.imp fun _ _ he => ⟨he.1, hS _ _ he.2⟩⟩

theorem Keeps.recvSide {c c' : Channels} (h : c.Keeps S) (hside : c'.recvSide = c.recvSide) : c'.Keeps S := by
  obtain ⟨-, -, hheld, harena⟩ := recvSide_eq hside
  rw [Keeps, hheld, harena]
  exact h

/-- What comes off the list was said, and the rest stays. -/
theorem Keeps.takeHeld {c : Channels} (h : c.Keeps S) {channel : Nat} {entry : Held}
    (hnext : c.nextHeld channel = some entry) :
    (c.takeHeld channel entry).Keeps S ∧
      ∀ payload, c.recvArena.load entry.bytes maxMessage = some payload → S channel payload := by
  obtain ⟨live, howns, hheld⟩ := h
  obtain ⟨hkey, before, after, hitems, herase⟩ := nextHeld_split hnext
  rw [hitems] at hheld
  obtain ⟨l₁, ⟨r, bytes⟩, l₂, rfl, hbefore, ⟨hr, hsaid⟩, hafter⟩ := hheld.split
  obtain rfl : r = entry.bytes := hr
  obtain rfl : entry.channel = channel := congrArg MessageKey.channel hkey
  refine ⟨⟨l₁ ++ l₂, Arena.release_owns howns, ?_⟩, fun payload hload => ?_⟩
  · show List.Forall₂ _ (c.held.removeFirst fun e => e.key == entry.key).items _
    rw [herase]
    exact List.rel_append hbefore hafter
  · have hlive : (entry.bytes, bytes) ∈ l₁ ++ (entry.bytes, bytes) :: l₂ := by simp
    rw [Arena.eq_of_load howns hlive hload]
    exact hsaid

theorem Keeps.flushOrdered (channel : Nat) (fuel : Nat) {c : Channels} (h : c.Keeps S) :
    (Channels.flushOrdered channel fuel c).1.Keeps S ∧
      ∀ m ∈ (Channels.flushOrdered channel fuel c).2, S m.channel m.payload := by
  refine flushOrdered_rule (P := fun c out => c.Keeps S ∧ ∀ m ∈ out, S m.channel m.payload)
    (fun h hnext => ?_) fuel [] ⟨h, by simp⟩
  obtain ⟨hkeeps, hsaid⟩ := h.1.takeHeld hnext
  refine ⟨hkeeps, fun m hm => ?_⟩
  rcases List.mem_append.1 hm with hm | hm
  · exact h.2 m hm
  · obtain ⟨payload, hload, rfl⟩ := Option.map_eq_some_iff.1 (Option.mem_toList.1 hm)
    exact hsaid payload hload

theorem classify_keeps {c : Channels} (channel : Nat) (kind : ChannelKind) (id : MessageId) (h : c.Keeps S) :
    (c.classify channel kind id).1.Keeps S := by
  cases kind <;> simp only [classify]
  · exact h
  · split <;> exact h
  · exact h
  · split
    · exact h
    · split
      · exact h
      · split <;> exact h

/-- A message that was said leaves only such messages held, and lets only such
out. -/
theorem Keeps.dispatch {c : Channels} (h : c.Keeps S) {channel : Nat} {payload : List UInt8} (hsaid : S channel payload)
    (kind : ChannelKind) (id : MessageId) :
    (c.dispatch channel kind id payload).1.Keeps S ∧
      ∀ m ∈ (c.dispatch channel kind id payload).2, S m.channel m.payload := by
  have hclass := classify_keeps channel kind id h
  rw [Channels.dispatch]
  split
  next c' hc => rw [hc] at hclass; exact ⟨hclass, by simp⟩
  next c' hc =>
    rw [hc] at hclass
    split
    · obtain ⟨hkeeps, hout⟩ := hclass.flushOrdered channel c'.held.items.length
      refine ⟨hkeeps, fun m hm => ?_⟩
      rcases List.mem_cons.1 hm with rfl | hm
      · exact hsaid
      · exact hout m hm
    · refine ⟨hclass, fun m hm => ?_⟩
      rw [List.mem_singleton.1 hm]
      exact hsaid
  next c' hc =>
    rw [hc] at hclass
    split
    · exact ⟨hclass, by simp⟩
    next hfull =>
      obtain ⟨live, howns, hheld⟩ := hclass
      rcases Arena.store_cases howns payload with hstore | ⟨a, r, hstore, howns'⟩
      · rw [hstore]
        exact ⟨⟨live, howns, hheld⟩, by simp⟩
      · obtain ⟨hitems, -⟩ := FixedVec.push_of_not_full (by simpa using hfull) (⟨channel, id, r⟩ : Held)
        rw [hstore]
        refine ⟨⟨live ++ [(r, payload)], howns', ?_⟩, by simp⟩
        show List.Forall₂ _ (c'.held.push ⟨channel, id, r⟩).1.items _
        rw [hitems]
        exact List.rel_append hheld (.cons ⟨rfl, hsaid⟩ .nil)

end

end Channels

/-! ## Runs -/

/-- The channels, beside the messages given to `send` and not released. -/
structure Queued where
  channels : Channels
  given : List (MessageKey × List UInt8)

/-- A call into the channels. -/
inductive ChannelCall
  | send (channel : Nat) (payload : List UInt8)
  | readMessage (r : BitReader)
  | writeFrames (w : BitWriter) (staged : PacketMessages) (limit : Nat)
  | onPacketSent (staged : PacketMessages)
  | onPacketAborted (staged : PacketMessages)
  | onAcked (record : PacketRecord)
  | onLost (record : PacketRecord)
  | requeueOldest (max : Nat)

namespace Queued

open Channels

/-- One call. What has been given grows by a send that succeeds, and shrinks
by the unreliable messages of a packet sent and by those acknowledged. -/
def after (s : Queued) : ChannelCall → Queued
  | .send channel payload =>
    match s.channels.send channel payload with
    | (c, .ok ()) => ⟨c, s.given ++ [(⟨channel, s.channels.nextIds channel⟩, payload)]⟩
    | (c, .error _) => ⟨c, s.given⟩
  | .readMessage r =>
    match s.channels.readMessage.run r with
    | .ok v _ => ⟨v.1, s.given⟩
    | .error _ _ => s
  | .writeFrames w staged limit => ⟨(s.channels.writeFrames w staged limit).1, s.given⟩
  | .onPacketSent staged =>
    ⟨(s.channels.onPacketSent staged).1, ((staged.items.filter (!·.reliable)).map Written.key).foldl unposted s.given⟩
  | .onPacketAborted staged => ⟨s.channels.onPacketAborted staged, s.given⟩
  | .onAcked record => ⟨s.channels.onAcked record, record.items.foldl unposted s.given⟩
  | .onLost record => ⟨s.channels.onLost record, s.given⟩
  | .requeueOldest max => ⟨s.channels.requeueOldest max, s.given⟩

/-- The channels of any set, under any calls. -/
def sys : Lts.Sys Queued ChannelCall where
  start s := ∃ set, s = ⟨.new set, []⟩
  step s call s' := s' = s.after call

/-- The queue holds what was given, and both arenas what their lists name. -/
structure Exact (s : Queued) : Prop where
  intact : s.channels.Intact
  shelved : s.channels.Keeps fun _ _ => True
  given_eq : s.given = s.channels.letters

/-- Marks alone moved. -/
theorem Exact.marks {s : Queued} (h : s.Exact) {c : Channels}
    (hqueue : queue c.pending.items = queue s.channels.pending.items) (harena : c.sendArena = s.channels.sendArena)
    (hset : c.set = s.channels.set) (hside : c.recvSide = s.channels.recvSide) : Exact ⟨c, s.given⟩ where
  intact := (h.intact.of_queue hqueue harena hset).intact
  shelved := h.shelved.recvSide hside
  given_eq := h.given_eq.trans (letters_of_queue hqueue harena).symm

theorem Exact.send {s : Queued} (h : s.Exact) (channel : Nat) (payload : List UInt8) :
    (s.after (.send channel payload)).Exact := by
  have hside := send_recvSide s.channels channel payload
  rw [after]
  split
  next c hsend =>
    rw [hsend] at hside
    obtain ⟨-, -, hintact, -⟩ := h.intact.send_ok hsend
    exact ⟨hintact, h.shelved.recvSide hside, by rw [h.given_eq]; exact (h.intact.letters_send hsend).symm⟩
  next c e hsend =>
    rw [send_error h.intact hsend]
    exact h

theorem Exact.readMessage {s : Queued} (h : s.Exact) (r : BitReader) : (s.after (.readMessage r)).Exact := by
  rw [after]
  split
  next v r' hread =>
    obtain ⟨channel, kind, id, payload, rfl⟩ := readMessage_ok hread
    have hside := dispatch_sendSide s.channels channel kind id payload
    refine ⟨h.intact.sendSide hside, (h.shelved.dispatch trivial kind id).1, h.given_eq.trans ?_⟩
    simp only [sendSide, Prod.mk.injEq] at hside
    exact (letters_of_queue (by rw [hside.2.2.1]) hside.2.2.2).symm
  · exact h

theorem Exact.writeFrames {s : Queued} (h : s.Exact) (w : BitWriter) (staged : PacketMessages) (limit : Nat) :
    (s.after (.writeFrames w staged limit)).Exact := by
  refine h.marks ?_ rfl rfl rfl
  refine fillChannels_rule (P := fun f => queue f.pending.items = queue s.channels.pending.items) ?_ _ rfl
  intro f f' hf hstep
  cases hstep with
  | stage => exact (queue_modifyFirst _ _ _).trans hf
  | undo => exact hf

theorem Exact.releasePending {s : Queued} (h : s.Exact) (key : MessageKey) :
    Exact ⟨s.channels.releasePending key, unposted s.given key⟩ where
  intact := (h.intact.releasePending key).intact
  shelved := h.shelved.recvSide (releasePending_recvSide _ key)
  given_eq := by rw [h.given_eq, h.intact.letters_releasePending]

theorem Exact.markLost {s : Queued} (h : s.Exact) (key : MessageKey) : Exact ⟨s.channels.markLost key, s.given⟩ :=
  h.marks (markLost_queue _ key) rfl rfl rfl

theorem Exact.onAcked {keys : List MessageKey} {c : Channels} {given : List (MessageKey × List UInt8)}
    (h : Exact ⟨c, given⟩) : Exact ⟨keys.foldl Channels.releasePending c, keys.foldl unposted given⟩ := by
  induction keys generalizing c given with
  | nil => exact h
  | cons key keys ih => exact ih (h.releasePending key)

/-- The messages of a sent packet, one after another: the record takes the
reliable ones and the queue loses the others. -/
theorem Exact.commit {staged : List Written} {c : Channels} {record : PacketRecord}
    {given : List (MessageKey × List UInt8)} (h : Exact ⟨c, given⟩) :
    Exact ⟨(staged.foldl commitOne (c, record)).1,
      ((staged.filter (!·.reliable)).map Written.key).foldl unposted given⟩ := by
  induction staged generalizing c record given with
  | nil => exact h
  | cons msg staged ih =>
    rw [List.foldl_cons, commitOne]
    cases hrel : msg.reliable with
    | true =>
      rw [if_pos rfl, List.filter_cons_of_neg (by simp [hrel])]
      exact ih h
    | false =>
      rw [if_neg Bool.false_ne_true, List.filter_cons_of_pos (by simp [hrel]), List.map_cons, List.foldl_cons]
      exact ih (h.releasePending msg.key)

theorem Exact.foldl_markLost {α : Type} (key : α → MessageKey) {l : List α} {c : Channels}
    {given : List (MessageKey × List UInt8)} (h : Exact ⟨c, given⟩) :
    Exact ⟨l.foldl (fun c a => c.markLost (key a)) c, given⟩ := by
  induction l generalizing c with
  | nil => exact h
  | cons a l ih => exact ih (h.markLost (key a))

theorem Exact.after {s : Queued} (h : s.Exact) (call : ChannelCall) : (s.after call).Exact := by
  cases call with
  | send channel payload => exact h.send channel payload
  | readMessage r => exact h.readMessage r
  | writeFrames w staged limit => exact h.writeFrames w staged limit
  | onPacketSent staged => exact h.commit
  | onPacketAborted staged => exact h.foldl_markLost Written.key
  | onAcked record => exact h.onAcked
  | onLost record => exact h.foldl_markLost id
  | requeueOldest max => exact h.marks (requeueOldest_queue _ max) rfl rfl rfl

theorem reachable_exact {s : Queued} (h : Lts.Reachable sys s) : s.Exact := by
  refine Lts.Reach.invariant (P := Exact) ?_ ?_ h
  · rintro s ⟨set, rfl⟩
    exact ⟨new_intact set, new_keeps _ set, rfl⟩
  · rintro s call s' - hs - rfl
    exact hs.after call

/-- **Sending is exact and atomic.** In every state the channels reach, by any
calls:
* each block of the send arena is free or in the chain of one pending message,
  and each of the receive arena free or in the chain of one held message;
* the pending messages are those given and not released, in order, and the
  chunks of each are the bytes it was given;
* a send succeeds exactly when its payload is no longer than a message may be,
  its channel exists, the queue is not full and the blocks are free;
* a send that fails leaves the channels as they were. -/
theorem send_exact {s : Queued} (h : Lts.Reachable sys s) :
    s.channels.sendArena.Partitioned (s.channels.pending.items.map Pending.bytes) ∧
    s.channels.recvArena.Partitioned (s.channels.held.items.map Held.bytes) ∧
    List.Forall₂ (fun m given => m.key = given.1 ∧ (s.channels.sendArena.chunks m.bytes).flatten = given.2)
      s.channels.pending.items s.given ∧
    ∀ channel payload,
      ((s.channels.send channel payload).2 = .ok () ↔ payload.length ≤ maxMessage ∧
        (s.channels.kind channel).isSome ∧ s.channels.pending.items.length < maxPending ∧
        Arena.blocksFor payload.length ≤ s.channels.sendArena.freeCount) ∧
      ∀ e, (s.channels.send channel payload).2 = .error e → (s.channels.send channel payload).1 = s.channels := by
  have hs := reachable_exact h
  have howns := hs.intact.owns
  refine ⟨?_, ?_, ?_, fun channel payload => ⟨hs.intact.send_ok_iff channel payload, fun e he => ?_⟩⟩
  · have hrefs : (live s.channels.contents s.channels.pending.items).map Prod.fst =
        s.channels.pending.items.map Pending.bytes := by
      rw [live, List.map_map]
      rfl
    rw [← hrefs]
    exact howns.partitioned
  · obtain ⟨live, howns, hheld⟩ := hs.shelved
    have hrefs : s.channels.held.items.map Held.bytes = live.map Prod.fst := by
      rw [← List.forall₂_eq_eq_eq, List.forall₂_map_left_iff, List.forall₂_map_right_iff]
      exact hheld.imp fun _ _ he => he.1.symm
    rw [hrefs]
    exact howns.partitioned
  · rw [hs.given_eq, letters, queue, List.map_map, List.forall₂_map_right_iff, List.forall₂_same]
    exact fun m hm => ⟨rfl, Arena.chunks_owned howns (List.mem_map.2 ⟨m, hm, rfl⟩)⟩
  · exact send_error hs.intact (Prod.ext rfl he)

/-! ### Two messages, one acknowledged -/

/-- Two messages on one channel, the first of them acknowledged. -/
def halfAcked : Queued :=
  (((⟨.new orderedOnly, []⟩ : Queued).after (.send 0 [1, 2])).after (.send 0 [3])).after
    (.onAcked ⟨[⟨0, 0⟩], by decide⟩)

theorem halfAcked_reachable : Lts.Reachable sys halfAcked :=
  .step (.step (.step (.start ⟨_, rfl⟩) trivial rfl) trivial rfl) trivial rfl

theorem send_exact_halfAcked : (halfAcked.channels.send 0 [4]).2 = .ok () ∧
    ∃ m, halfAcked.channels.pending.items = [m] ∧ (halfAcked.channels.sendArena.chunks m.bytes).flatten = [3] := by
  obtain ⟨-, -, hgiven, hsend⟩ := send_exact halfAcked_reachable
  refine ⟨(hsend 0 [4]).1.2 (by decide +kernel), ?_⟩
  rw [show halfAcked.given = [(⟨0, 1⟩, [3])] by decide +kernel] at hgiven
  generalize halfAcked.channels = c at hgiven ⊢
  cases hitems : c.pending.items with
  | nil => rw [hitems] at hgiven; cases hgiven
  | cons m rest =>
    rw [hitems] at hgiven
    cases hgiven with
    | cons hm hrest =>
      cases hrest
      exact ⟨m, rfl, hm.2⟩

end Queued
end HexNet
