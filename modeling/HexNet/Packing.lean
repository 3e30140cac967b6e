/-
How far a packet is filled, by lengths alone.

`write_frames` tries each message by writing its frame and takes it back where
the packet or the allowance is too short. Where a frame ends depends on where
it starts, on its channel's kind and on its length. So `packChannels` says where
the packet ends from the lengths that wait, without a writer
(`writeFrames_packs`); and an empty packet takes something exactly when the
allowance covers the frame of the first message that waits
(`packChannels_first`).
-/
import HexNet.ChannelFacts

namespace HexNet

open BitFields

namespace Channels

open BitWriter

/-! ## Frames by length -/

/-- The fields ahead of a message's payload. -/
def frameBits (kind : ChannelKind) : Nat := messageFrameBits - if kind.needsId then 0 else messageIdBits

/-- Where a frame that starts at bit `p` ends: the payload is of whole bytes
and starts on one. -/
def frameEnd (kind : ChannelKind) (p len : Nat) : Nat := 8 * (bytesFor (p + frameBits kind) + len)

theorem frameBits_eq (kind : ChannelKind) : frameBits kind = if kind.needsId then 33 else 17 := by
  cases kind <;> decide

theorem frameEnd_eq (p : Nat) (kind : ChannelKind) (m : Message) :
    p + width (frameFields p kind m) = frameEnd kind p m.payload.length := by
  simp only [frameFields, bodyFields, headFields, frameEnd, frameBits_eq, bytesFor, width_cons, width_append, width_nil,
    width_bytes]
  split <;> simp only [width_cons, width_nil] <;> omega

theorem lt_frameEnd (kind : ChannelKind) (p len : Nat) : p < frameEnd kind p len := by
  rw [frameEnd, frameBits_eq, bytesFor]
  split <;> omega

/-- The lengths that wait on a channel, in turn. -/
def waiting (items : List Pending) (channel : Nat) : List Nat :=
  (items.filter fun m => m.channel == channel && !m.inFlight).map fun m => m.bytes.len

/-- What waits on each channel, in configured order. -/
def queuesOf (set : ChannelSet) (items : List Pending) (order : List Nat) : List (ChannelKind × List Nat) :=
  order.filterMap fun channel => (set.kind channel).map fun kind => (kind, waiting items channel)

def queues (c : Channels) : List (ChannelKind × List Nat) := queuesOf c.set c.pending.items (List.range c.set.len)

/-- One channel's turn, in a packet of `room` bits that stands at bit `p` with
place for `count` messages more: where it then stands, and whether the next
channel has a turn. -/
def packChannel (room limit start : Nat) (kind : ChannelKind) : List Nat → Nat → Nat → (Nat × Nat) × Bool
  | [], count, p => ((count, p), !(count == 0 || decide (limit ≤ bytesFor (p - start))))
  | len :: lens, count, p =>
    if count == 0 || decide (limit ≤ bytesFor (p - start)) then ((count, p), false)
    else if room < frameEnd kind p len then ((count, p), true)
    else if limit < bytesFor (frameEnd kind p len - start) then ((count, p), false)
    else packChannel room limit start kind lens (count - 1) (frameEnd kind p len)

/-- Every channel's turn: where the packet ends. -/
def packChannels (room limit start : Nat) : List (ChannelKind × List Nat) → Nat → Nat → Nat
  | [], _, p => p
  | (kind, lens) :: queues, count, p =>
    let turn := packChannel room limit start kind lens count p
    if turn.2 then packChannels room limit start queues turn.1.1 turn.1.2 else turn.1.2

/-! ## A packet is filled as its lengths are packed -/

/-- Every queued message has a frame that can be written anywhere, as long as
its length says. -/
def Writable (set : ChannelSet) (arena : Arena arenaBlocks) (items : List Pending) : Prop :=
  ∀ m ∈ items, ∀ kind, set.kind m.channel = some kind →
    ∃ msg : Message, msg.payload.length = m.bytes.len ∧ ∀ p, Emits p (writeFrame kind m arena) (frameFields p kind msg)

theorem Intact.writable {c : Channels} (h : c.Intact) : Writable c.set c.sendArena c.pending.items := by
  intro m hm kind hkind
  have hlive : (m.bytes, c.contents (m.key, m.bytes)) ∈ live c.contents c.pending.items := List.mem_map.2 ⟨m, hm, rfl⟩
  obtain ⟨cs, hst, -⟩ := h.owns.chain hlive
  exact ⟨⟨m.channel, m.id, c.contents (m.key, m.bytes)⟩, hst.count.symm, fun p =>
    writeFrame_emits p kind (kind_lt hkind) hst.count (h.wired m hm).2 (Arena.chunks_owned h.owns hlive)⟩

/-- Marking a message as sent leaves its frame. -/
theorem Writable.marked {set : ChannelSet} {arena : Arena arenaBlocks} {pending : FixedVec Pending maxPending}
    (h : Writable set arena pending.items) (p : Pending → Bool) :
    Writable set arena (pending.modifyFirst p fun m => { m with inFlight := true }).items := by
  intro m hm kind hkind
  rcases List.mem_modifyFirst hm with hm | ⟨a, ha, rfl⟩
  · exact h m hm kind hkind
  · exact h a (List.mem_of_find?_eq_some ha) kind hkind

theorem waiting_eq_nil {items : List Pending} {channel : Nat}
    (hfind : (items.find? fun m => m.channel == channel && !m.inFlight) = none) : waiting items channel = [] := by
  rw [waiting, ← List.head?_eq_none_iff, List.head?_map, List.head?_filter, hfind]
  rfl

theorem waiting_eq_cons {items : List Pending} {channel : Nat} {m : Pending}
    (hfind : (items.find? fun m => m.channel == channel && !m.inFlight) = some m) :
    waiting items channel = m.bytes.len :: (waiting items channel).tail := by
  refine (List.cons_head?_tail ?_).symm
  rw [waiting, List.head?_map, List.head?_filter, hfind]
  rfl

theorem waiting_marked (pending : FixedVec Pending maxPending) (channel : Nat) :
    waiting (pending.modifyFirst (fun m => m.channel == channel && !m.inFlight)
      fun m => { m with inFlight := true }).items channel = (waiting pending.items channel).tail := by
  rw [waiting, waiting, ← List.map_tail]
  exact congrArg _ (List.filter_modifyFirst (by simp) _)

theorem waiting_marked_ne (pending : FixedVec Pending maxPending) {channel other : Nat} (hne : other ≠ channel) :
    waiting (pending.modifyFirst (fun m => m.channel == channel && !m.inFlight)
      fun m => { m with inFlight := true }).items other = waiting pending.items other := by
  refine congrArg _ (List.filter_modifyFirst_of_not (fun m hm => ?_) _)
  have hchan : m.channel = channel := by simpa using (Bool.and_eq_true_iff.1 hm).1
  simp [hchan, hne.symm]

/-- A packet being filled that stands at bit `p`, with place for `count`
messages more. -/
structure Stands (set : ChannelSet) (arena : Arena arenaBlocks) (len count p : Nat) (s : Filling) : Prop where
  writable : Writable set arena s.pending.items
  holds : ∃ gs, s.w.Holds gs ∧ width gs = p
  len_eq : s.w.buf.length = len
  count_eq : s.staged.items.length + count = maxMessagesPerPacket

variable {set : ChannelSet} {arena : Arena arenaBlocks} {limit start channel len count p : Nat} {kind : ChannelKind}
  {s : Filling}

theorem Stands.written (h : Stands set arena len count p s) : s.w.bitsWritten = p := by
  obtain ⟨gs, hw, rfl⟩ := h.holds
  exact hw.written

theorem Stands.isFull (h : Stands set arena len count p s) : s.staged.isFull = (count == 0) := by
  have hcount := h.count_eq
  rw [FixedVec.isFull, Bool.eq_iff_iff, beq_iff_eq, beq_iff_eq]
  omega

/-- A frame that was written, or was not, is taken back. -/
theorem Stands.back (h : Stands set arena len count p s) {m : Pending} {msg : Message} {w' : BitWriter}
    (hemits : ∀ p, Emits p (writeFrame kind m arena) (frameFields p kind msg))
    (hrun : (∃ e, (writeFrame kind m arena).run s.w = .error e w') ∨ (writeFrame kind m arena).run s.w = .ok () w') :
    Stands set arena len count p { s with w := w'.rollback s.w.checkpoint } := by
  obtain ⟨gs, hw, hp⟩ := h.holds
  obtain ⟨hback, hlen⟩ := (hemits p).rollback hw hp hrun
  exact ⟨h.writable, ⟨gs, hback, hp⟩, hlen.trans h.len_eq, h.count_eq⟩

/-- A frame that was written is kept, and its message staged. -/
theorem Stands.stage (h : Stands set arena len count p s) (hcount : count ≠ 0) (x : Written) (q : Pending → Bool)
    {w' : BitWriter} {end_ : Nat} (hholds : ∃ gs, w'.Holds gs ∧ width gs = end_) (hlen : w'.buf.length = len) :
    Stands set arena len (count - 1) end_
      ⟨s.pending.modifyFirst q fun m => { m with inFlight := true }, w', (s.staged.push x).1, true⟩ := by
  have hfull : s.staged.isFull = false := by rw [h.isFull]; simpa using hcount
  obtain ⟨hitems, -⟩ := FixedVec.push_of_not_full hfull x
  have hplaces := h.count_eq
  refine ⟨h.writable.marked q, hholds, hlen, ?_⟩
  rw [hitems, List.length_append, List.length_singleton]
  omega

/-- **A channel's turn takes what its lengths say.** The other channels' queues
are left. -/
theorem fillChannel_packs (limit start : Nat) (hkind : set.kind channel = some kind) (fuel : Nat)
    (h : Stands set arena len count p s) (hfuel : count < fuel) :
    let turn := packChannel (8 * len) limit start kind (waiting s.pending.items channel) count p
    let r := fillChannel arena limit start channel kind fuel s
    r.2 = turn.2 ∧ Stands set arena len turn.1.1 turn.1.2 r.1 ∧
      ∀ other, other ≠ channel → waiting r.1.pending.items other = waiting s.pending.items other := by
  induction fuel generalizing s count p with
  | zero => omega
  | succ fuel ih =>
    rw [fillChannel, h.isFull, h.written]
    cases hfind : s.pending.items.find? fun m => m.channel == channel && !m.inFlight with
    | none =>
      rw [waiting_eq_nil hfind, packChannel]
      split
      next hstop => exact ⟨by rw [hstop]; rfl, h, fun _ _ => rfl⟩
      next hgo => exact ⟨by simp [hgo], h, fun _ _ => rfl⟩
    | some m =>
      have hchannel : m.channel = channel := by
        have hm := List.find?_some hfind
        simp only [Bool.and_eq_true, beq_iff_eq] at hm
        exact hm.1
      obtain ⟨msg, hmsg, hemits⟩ := h.writable m (List.mem_of_find?_eq_some hfind) kind (by rw [hchannel]; exact hkind)
      obtain ⟨gs, hw, hp⟩ := h.holds
      have hend := frameEnd_eq p kind msg
      rw [hmsg] at hend
      obtain ⟨hok, herr⟩ := hemits p s.w gs hw hp
      rw [waiting_eq_cons hfind, packChannel]
      split
      · exact ⟨rfl, h, fun _ _ => rfl⟩
      next hgo =>
        have hcount : count ≠ 0 := by rintro rfl; simp at hgo
        rw [hend, h.len_eq] at hok herr
        dsimp only
        by_cases hlong : 8 * len < frameEnd kind p m.bytes.len
        · -- the frame does not fit the packet
          obtain ⟨e, w', -, hrun, -⟩ := herr hlong
          rw [hrun, if_pos hlong]
          exact ⟨rfl, h.back hemits (.inl ⟨e, hrun⟩), fun _ _ => rfl⟩
        · obtain ⟨w', hrun, hold, hlen⟩ := hok (by omega)
          have hbits : w'.bitsWritten = frameEnd kind p m.bytes.len := by rw [hold.written, width_append, hp, hend]
          rw [hrun, if_neg hlong]
          dsimp only
          rw [hbits]
          split
          · exact ⟨rfl, h.back hemits (.inr hrun), fun _ _ => rfl⟩
          · have hnext := h.stage hcount ⟨channel, m.id, kind.isReliable⟩
              (fun m => m.channel == channel && !m.inFlight) ⟨_, hold, hold.written.symm.trans hbits⟩ hlen
            obtain ⟨hgo', hstands, hother⟩ := ih hnext (by omega)
            rw [waiting_marked] at hgo' hstands
            exact ⟨hgo', hstands, fun other hne => (hother other hne).trans (waiting_marked_ne _ hne)⟩

/-- Every channel's turn. -/
theorem fillChannels_packs {order : List Nat} (hnodup : order.Nodup) (h : Stands set arena len count p s) :
    (fillChannels set arena limit start order s).w.bitsWritten =
      packChannels (8 * len) limit start (queuesOf set s.pending.items order) count p := by
  induction order generalizing s count p with
  | nil => exact h.written
  | cons channel order ih =>
    obtain ⟨hnew, hnodup⟩ := List.nodup_cons.1 hnodup
    rw [fillChannels]
    cases hkind : set.kind channel with
    | none =>
      rw [queuesOf, List.filterMap_cons, hkind]
      exact ih hnodup h
    | some kind =>
      have hle : count < maxMessagesPerPacket + 1 := by have := h.count_eq; omega
      obtain ⟨hgo, hstands, hother⟩ := fillChannel_packs limit start hkind _ h hle
      rw [queuesOf, List.filterMap_cons, hkind]
      dsimp only [Option.map_some]
      rw [packChannels, hgo]
      split
      · rw [ih hnodup hstands]
        congr 1
        refine List.filterMap_congr fun other ho => ?_
        rw [hother other (fun heq => hnew (heq ▸ ho))]
      · exact hstands.written

/-- **A packet ends where its lengths say.** -/
theorem writeFrames_packs {c : Channels} (h : c.Intact) {w : BitWriter} {gs : List (Nat × Nat)} (hw : w.Holds gs)
    (limit : Nat) : (c.writeFrames w .empty limit).2.1.bitsWritten =
      packChannels (8 * w.buf.length) limit w.bitsWritten c.queues maxMessagesPerPacket w.bitsWritten :=
  fillChannels_packs List.nodup_range ⟨h.writable, ⟨gs, hw, hw.written.symm⟩, rfl, Nat.zero_add _⟩

/-! ## The message tried first -/

/-- The first message that waits, on the first channel with one. -/
def first (queues : List (ChannelKind × List Nat)) : Option (ChannelKind × Nat) :=
  queues.findSome? fun q => q.2.head?.map (q.1, ·)

theorem le_packChannel (room limit start : Nat) (kind : ChannelKind) (lens : List Nat) (count p : Nat) :
    p ≤ (packChannel room limit start kind lens count p).1.2 := by
  induction lens generalizing count p with
  | nil => exact Nat.le_refl p
  | cons len lens ih =>
    rw [packChannel]
    split
    · exact Nat.le_refl p
    · split
      · exact Nat.le_refl p
      · split
        · exact Nat.le_refl p
        · exact (lt_frameEnd kind p len).le.trans (ih _ _)

theorem le_packChannels (room limit start : Nat) (queues : List (ChannelKind × List Nat)) (count p : Nat) :
    p ≤ packChannels room limit start queues count p := by
  induction queues generalizing count p with
  | nil => exact Nat.le_refl p
  | cons q queues ih =>
    have hturn := le_packChannel room limit start q.1 q.2 count p
    rw [packChannels]
    split
    · exact hturn.trans (ih _ _)
    · exact hturn

/-- **A packet that has room for the first message takes nothing exactly when
that message is past the allowance.** -/
theorem packChannels_first {room limit p count : Nat} {queues : List (ChannelKind × List Nat)}
    (hroom : ∀ q, first queues = some q → frameEnd q.1 p q.2 ≤ room) (hcount : 0 < count) (hlimit : 0 < limit) :
    packChannels room limit p queues count p = p ↔
      ∀ q, first queues = some q → limit < bytesFor (frameEnd q.1 p q.2 - p) := by
  have hgo : ¬ (count == 0 || decide (limit ≤ bytesFor (p - p))) = true := by
    rw [Nat.sub_self, show bytesFor 0 = 0 from rfl]
    simp
    omega
  induction queues with
  | nil => simp [packChannels, first]
  | cons q queues ih =>
    obtain ⟨kind, lens⟩ := q
    rw [packChannels]
    cases lens with
    | nil =>
      have hfirst : first ((kind, []) :: queues) = first queues := rfl
      rw [hfirst] at hroom ⊢
      rw [packChannel, Bool.eq_false_iff.2 hgo]
      exact ih hroom
    | cons len lens =>
      have hfirst : first ((kind, len :: lens) :: queues) = some (kind, len) := rfl
      rw [hfirst] at hroom ⊢
      have hfits := hroom (kind, len) rfl
      dsimp only at hfits
      have hlt := lt_frameEnd kind p len
      rw [packChannel, if_neg hgo, if_neg (Nat.not_lt.2 hfits)]
      by_cases hover : limit < bytesFor (frameEnd kind p len - p)
      · rw [if_pos hover]
        simpa using hover
      · rw [if_neg hover]
        have hturn := le_packChannel room limit p kind lens (count - 1) (frameEnd kind p len)
        refine iff_of_false (fun heq => ?_) fun hall => hover (hall (kind, len) rfl)
        split at heq
        · have hrest := le_packChannels room limit p queues
            (packChannel room limit p kind lens (count - 1) (frameEnd kind p len)).1.1
            (packChannel room limit p kind lens (count - 1) (frameEnd kind p len)).1.2
          omega
        · omega

/-- The message tried first is the one `next_unsent_len` reports. -/
theorem nextUnsentLen_eq (c : Channels) : c.nextUnsentLen = (first c.queues).map Prod.snd := by
  have hkinds : ∀ channel ∈ List.range c.set.len, ∃ kind, c.set.kind channel = some kind := fun channel hc => by
    rw [ChannelSet.kind, List.getElem?_eq_getElem (List.mem_range.1 hc)]
    exact ⟨_, rfl⟩
  rw [nextUnsentLen, queues]
  generalize List.range c.set.len = order at hkinds
  induction order with
  | nil => rfl
  | cons channel order ih =>
    obtain ⟨kind, hkind⟩ := hkinds channel List.mem_cons_self
    have hrest := ih fun channel hc => hkinds channel (List.mem_cons_of_mem _ hc)
    rw [List.findSome?_cons, queuesOf, List.filterMap_cons, hkind]
    dsimp only [Option.map_some]
    rw [first, List.findSome?_cons, waiting, List.head?_map, List.head?_filter]
    cases c.pending.items.find? fun m => m.channel == channel && !m.inFlight with
    | none => exact hrest
    | some m => rfl

end Channels
end HexNet
