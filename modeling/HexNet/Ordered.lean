/-
Reliable-ordered delivery: what a receiver that reads packets in any order
hands on, and when the hold list can take what arrives early.

The source argues (`channel.rs`, on `MAX_PENDING`) that the hold list cannot
overflow, since a peer has no more outstanding than we can hold. It can: an
acknowledgement frees the sender's slot while the message is only held, so
the sender may go on while the gap stays open (`hold_overflows`). What the
argument needs is that the messages past each channel's expected id fit the
hold storage, and then no released message is lost (`ordered_no_loss`).
-/
import HexNet.LinkFacts
import Mathlib.Algebra.Order.BigOperators.Group.List
import Mathlib.Data.List.Perm.Subperm

namespace HexNet

/-- What the receiver has done with the ordered channels: delivered each one's
messages in order up to the expected id, and held distinct later ones. -/
structure OrderedSoFar (set : ChannelSet) (sent : List Message) (c : Channels) (delivered : List Message) : Prop where
  set_eq : c.set = set
  inOrder : ∀ channel, set.kind channel = some .reliableOrdered →
    onChannel channel delivered = (onChannel channel sent).take (c.receivers channel).expected.toNat ∧
      (c.receivers channel).expected.toNat ≤ (onChannel channel sent).length
  owns : c.recvArena.Owns (c.held.items.map fun h => (h.bytes, payloadOf sent h.key))
  held : ∀ h ∈ c.held.items, set.kind h.channel = some .reliableOrdered ∧ (∃ m ∈ sent, m.key = h.key) ∧
    (c.receivers h.channel).expected.toNat ≤ h.id.toNat
  nodup : (c.held.items.map Held.key).Nodup
  dropped : c.droppedInbound = 0

namespace Channels

/-- No held message is the one its channel expects. -/
def Settled (c : Channels) : Prop := ∀ h ∈ c.held.items, h.id ≠ (c.receivers h.channel).expected

/-- The message is delivered, or held for its turn. -/
def Got (c : Channels) (key : MessageKey) : Prop :=
  key.id.toNat < (c.receivers key.channel).expected.toNat ∨ ∃ h ∈ c.held.items, h.key = key

/-- The receiver only moves forward. -/
structure Advances (c c' : Channels) : Prop where
  expected : ∀ channel, (c.receivers channel).expected.toNat ≤ (c'.receivers channel).expected.toNat
  got : ∀ key, c.Got key → c'.Got key

theorem Advances.refl (c : Channels) : c.Advances c := ⟨fun _ => le_rfl, fun _ h => h⟩

theorem Advances.trans {c₁ c₂ c₃ : Channels} (h₁ : c₁.Advances c₂) (h₂ : c₂.Advances c₃) : c₁.Advances c₃ :=
  ⟨fun channel => (h₁.expected channel).trans (h₂.expected channel), fun key h => h₂.got key (h₁.got key h)⟩

/-- The channel's expected message is delivered, and the hold list keeps
`held`. -/
def advanceTo (c : Channels) (m : Message) (held : FixedVec Held maxHeld) (arena : Arena arenaBlocks) : Channels :=
  { c.setReceiver m.channel { c.receivers m.channel with expected := m.id.next } with held, recvArena := arena }

/-- What becomes of an ordered message that arrives. -/
inductive OrderedStep (c : Channels) (m : Message) : Channels × List Message → Prop
  | late : m.id.toNat < (c.receivers m.channel).expected.toNat → OrderedStep c m (c, [])
  /-- In its turn, with what it unblocks. -/
  | turn : m.id = (c.receivers m.channel).expected →
    OrderedStep c m ((flushOrdered m.channel c.held.items.length (c.advanceTo m c.held c.recvArena)).1,
      m :: (flushOrdered m.channel c.held.items.length (c.advanceTo m c.held c.recvArena)).2)
  /-- Early, and held already. -/
  | again {e : Held} : (c.receivers m.channel).expected.toNat < m.id.toNat → e ∈ c.held.items → e.key = m.key →
    OrderedStep c m (c, [])
  /-- Early, and no room for it. -/
  | dropped {arena : Arena arenaBlocks} : (c.receivers m.channel).expected.toNat < m.id.toNat →
    (∀ e ∈ c.held.items, e.key ≠ m.key) →
    (c.held.isFull = true ∧ arena = c.recvArena ∨ c.held.isFull = false ∧ c.recvArena.store m.payload = (arena, none)) →
    OrderedStep c m ({ c with recvArena := arena, droppedInbound := c.droppedInbound + 1 }, [])
  | held {arena : Arena arenaBlocks} {r : ByteRef} : (c.receivers m.channel).expected.toNat < m.id.toNat →
    (∀ e ∈ c.held.items, e.key ≠ m.key) → c.held.isFull = false → c.recvArena.store m.payload = (arena, some r) →
    OrderedStep c m ({ c with recvArena := arena, held := (c.held.push ⟨m.channel, m.id, r⟩).1 }, [])

/-- **An ordered message arriving**, early, late or in its turn. -/
theorem dispatch_orderedStep (c : Channels) {m : Message}
    (hahead : m.id.toNat < (c.receivers m.channel).expected.toNat + 2 ^ 31)
    (hbehind : (c.receivers m.channel).expected.toNat ≤ m.id.toNat + 2 ^ 31) :
    c.OrderedStep m (c.dispatch m.channel .reliableOrdered m.id m.payload) := by
  have hdist := MessageId.distanceFrom_eq hahead hbehind
  rcases Nat.lt_trichotomy m.id.toNat (c.receivers m.channel).expected.toNat with hlt | heq | hgt
  · have hclass : c.classify m.channel .reliableOrdered m.id = (c, .discard) := by
      simp only [classify, hdist]
      rw [if_pos (by omega)]
    rw [dispatch, hclass]
    exact .late hlt
  · have hid : m.id = (c.receivers m.channel).expected := UInt32.toNat_inj.1 heq
    have hclass : c.classify m.channel .reliableOrdered m.id = (c.advanceTo m c.held c.recvArena, .deliver) := by
      simp only [classify, hdist, advanceTo]
      rw [if_neg (by omega), if_pos (by omega), ← hid]
      rfl
    rw [dispatch, hclass]
    by_cases hempty : c.held.items = []
    · have hturn := OrderedStep.turn hid
      rw [hempty] at hturn
      dsimp only
      rw [if_neg fun hcon => hcon.2 hempty]
      exact hturn
    · dsimp only
      rw [if_pos ⟨rfl, hempty⟩]
      exact .turn hid
  · by_cases hheld : ∃ e ∈ c.held.items, e.key = m.key
    · obtain ⟨e, he, hek⟩ := hheld
      have hclass : c.classify m.channel .reliableOrdered m.id = (c, .discard) := by
        have hany : (c.held.items.any fun e => e.key == ⟨m.channel, m.id⟩) = true :=
          List.any_eq_true.2 ⟨e, he, beq_iff_eq.2 hek⟩
        simp only [classify, hdist]
        rw [if_neg (by omega), if_neg (by omega), if_pos hany]
      rw [dispatch, hclass]
      exact .again hgt he hek
    · have hnew : ∀ e ∈ c.held.items, e.key ≠ m.key := fun e he hek => hheld ⟨e, he, hek⟩
      have hclass : c.classify m.channel .reliableOrdered m.id = (c, .hold) := by
        have hany : ¬ (c.held.items.any fun e => e.key == ⟨m.channel, m.id⟩) = true := by
          simp only [List.any_eq_true, beq_iff_eq, not_exists, not_and]
          exact hnew
        simp only [classify, hdist]
        rw [if_neg (by omega), if_neg (by omega), if_neg hany]
      rw [dispatch, hclass]
      dsimp only
      split
      next hfull => exact .dropped hgt hnew (.inl ⟨hfull, rfl⟩)
      next hfull =>
        have hroom : c.held.isFull = false := by simpa using hfull
        split
        next arena hstore => exact .dropped hgt hnew (.inr ⟨hroom, hstore⟩)
        next arena r hstore => exact .held hgt hnew hroom hstore

/-- Flushing stops only where the channel's next message is not held. -/
theorem flushOrdered_settled {channel : Nat} (fuel : Nat) {c : Channels}
    (hoff : ∀ e ∈ c.held.items, e.channel ≠ channel → e.id ≠ (c.receivers e.channel).expected)
    (hfuel : c.held.items.length ≤ fuel) : (flushOrdered channel fuel c).1.Settled := by
  induction fuel generalizing c with
  | zero =>
    have hnil : c.held.items = [] := List.length_eq_zero_iff.1 (Nat.le_zero.1 hfuel)
    intro e he
    rw [flushOrdered, hnil] at he
    cases he
  | succ fuel ih =>
    cases hnext : c.nextHeld channel with
    | none =>
      rw [flushOrdered, hnext]
      intro e he heq
      by_cases hc : e.channel = channel
      · subst hc
        have := List.find?_eq_none.1 hnext e he
        simp [Held.key] at this
        exact this heq
      · exact hoff e he hc heq
    | some entry =>
      obtain ⟨-, before, after, hitems, herase⟩ := nextHeld_split hnext
      rw [flushOrdered, hnext]
      refine ih (fun e he hc => ?_) ?_
      · have hrecv : (c.takeHeld channel entry).receivers e.channel = c.receivers e.channel := by
          simp [takeHeld, setReceiver, hc]
        rw [hrecv]
        exact hoff e (List.eraseP_sublist.subset he) hc
      · have hlen : (c.takeHeld channel entry).held.items.length < c.held.items.length := by
          show (c.held.removeFirst fun e => e.key == entry.key).items.length < _
          rw [herase, hitems]
          simp
        omega

theorem Settled.fresh {c : Channels} (h : c.Settled) {m : Message} (hid : m.id = (c.receivers m.channel).expected) :
    ∀ e ∈ c.held.items, e.key ≠ m.key := by
  intro e he hkey
  have hchan : e.channel = m.channel := congrArg MessageKey.channel hkey
  refine h e he ?_
  rw [hchan, ← hid]
  exact congrArg MessageKey.id hkey

theorem Settled.push {c : Channels} (h : c.Settled) {m : Message}
    (hgt : (c.receivers m.channel).expected.toNat < m.id.toNat) (hfull : c.held.isFull = false)
    (arena : Arena arenaBlocks) (r : ByteRef) :
    Settled { c with recvArena := arena, held := (c.held.push ⟨m.channel, m.id, r⟩).1 } := by
  obtain ⟨hitems, -⟩ := FixedVec.push_of_not_full hfull ⟨m.channel, m.id, r⟩
  intro e he
  dsimp only at he
  rw [hitems, List.mem_append, List.mem_singleton] at he
  rcases he with he | rfl
  · exact h e he
  · intro heq
    have hsame : m.id = (c.receivers m.channel).expected := heq
    rw [hsame] at hgt
    exact lt_irrefl _ hgt

theorem Settled.turn {c : Channels} (h : c.Settled) (m : Message) :
    (flushOrdered m.channel c.held.items.length (c.advanceTo m c.held c.recvArena)).1.Settled := by
  refine flushOrdered_settled _ (fun e he hc => ?_) le_rfl
  have hsame : (c.advanceTo m c.held c.recvArena).receivers e.channel = c.receivers e.channel := by
    simp [advanceTo, setReceiver, hc]
  rw [hsame]
  exact h e he

end Channels

open Channels

section

variable {set : ChannelSet} {sent : List Message} {c : Channels} {delivered : List Message}

theorem next_toNat (hnum : Numbered set sent) {m : Message} (hm : m ∈ sent) : m.id.next.toNat = m.id.toNat + 1 := by
  have h₁ := hnum.id_lt hm
  have h₂ := hnum.lt m.channel
  rw [MessageId.next, UInt32.toNat_add]
  exact Nat.mod_eq_of_lt (by simp; omega)

theorem OrderedSoFar.advance (h : OrderedSoFar set sent c delivered) (hnum : Numbered set sent) {m : Message}
    (hm : m ∈ sent) (hid : m.id = (c.receivers m.channel).expected) {held : FixedVec Held maxHeld}
    {arena : Arena arenaBlocks}
    (howns : arena.Owns (held.items.map fun h => (h.bytes, payloadOf sent h.key)))
    (hsub : held.items.Sublist c.held.items) (hne : ∀ e ∈ held.items, e.key ≠ m.key) :
    OrderedSoFar set sent (c.advanceTo m held arena) (delivered ++ [m]) := by
  have hnext := next_toNat hnum hm
  have hget := hnum.get hm
  have hlt := hnum.id_lt hm
  have hexp : ∀ channel, ((c.advanceTo m held arena).receivers channel).expected =
      if channel = m.channel then m.id.next else (c.receivers channel).expected := by
    intro channel
    by_cases hc : channel = m.channel
    · subst hc; simp [advanceTo, setReceiver]
    · simp [advanceTo, setReceiver, hc]
  refine ⟨h.set_eq, ?_, howns, ?_, ?_, h.dropped⟩
  · intro channel hk
    obtain ⟨hdel, hle⟩ := h.inOrder channel hk
    rw [hexp]
    by_cases hc : m.channel = channel
    · subst hc
      rw [if_pos rfl, onChannel_snoc_of_eq rfl, hdel, hnext, List.take_add_one, hget, ← hid]
      exact ⟨rfl, hlt⟩
    · rw [if_neg (Ne.symm hc), onChannel_snoc_of_ne hc]
      exact ⟨hdel, hle⟩
  · intro e he
    obtain ⟨hek, hsent, hle⟩ := h.held e (hsub.subset he)
    refine ⟨hek, hsent, ?_⟩
    rw [hexp]
    split
    next hc =>
      have hneq : e.id ≠ m.id := by
        intro hidEq
        exact hne e he (by rw [Held.key, Message.key, hc, hidEq])
      rw [hc, ← hid] at hle
      have : e.id.toNat ≠ m.id.toNat := fun heq => hneq (UInt32.toNat_inj.1 heq)
      omega
    · exact hle
  · exact h.nodup.sublist (hsub.map Held.key)

theorem advanceTo_advances (held : FixedVec Held maxHeld) (arena : Arena arenaBlocks) (hnum : Numbered set sent)
    {m : Message} (hm : m ∈ sent) (hid : m.id = (c.receivers m.channel).expected)
    (hkeep : ∀ e ∈ c.held.items, e ∈ held.items ∨ e.key = m.key) :
    c.Advances (c.advanceTo m held arena) ∧ (c.advanceTo m held arena).Got m.key := by
  have hnext := next_toNat hnum hm
  have hself : ((c.advanceTo m held arena).receivers m.channel).expected = m.id.next := by
    simp [advanceTo, setReceiver]
  have hgot : (c.advanceTo m held arena).Got m.key := by
    refine .inl ?_
    show m.id.toNat < ((c.advanceTo m held arena).receivers m.channel).expected.toNat
    rw [hself, hnext]
    omega
  have hexp : ∀ channel, (c.receivers channel).expected.toNat ≤
      ((c.advanceTo m held arena).receivers channel).expected.toNat := by
    intro channel
    by_cases hc : channel = m.channel
    · rw [hc, hself, hnext, ← hid]; omega
    · simp [advanceTo, setReceiver, hc]
  refine ⟨⟨hexp, fun key hkey => ?_⟩, hgot⟩
  rcases hkey with hlt | ⟨e, he, hek⟩
  · exact .inl (lt_of_lt_of_le hlt (hexp key.channel))
  · rcases hkeep e he with hin | heq
    · exact .inr ⟨e, hin, hek⟩
    · rw [← hek, heq]; exact hgot

/-- Taking the expected message off the hold list delivers it. -/
theorem takeHeld_spec (hnum : Numbered set sent) {channel : Nat} {entry : Held}
    (h : OrderedSoFar set sent c delivered) (hnext : c.nextHeld channel = some entry) :
    ∃ m ∈ sent, (⟨channel, entry.id, m.payload⟩ : Message) = m ∧
      c.recvArena.load entry.bytes maxMessage = some m.payload ∧
      OrderedSoFar set sent (c.takeHeld channel entry) (delivered ++ [m]) ∧ c.Advances (c.takeHeld channel entry) := by
  obtain ⟨hkey, before, after, hitems, herase⟩ := nextHeld_split hnext
  have hmem : entry ∈ c.held.items := by rw [hitems]; simp
  obtain ⟨-, ⟨m, hm, hmkey⟩, -⟩ := h.held entry hmem
  obtain rfl : m.channel = channel := congrArg MessageKey.channel (hmkey.trans hkey)
  have hid : m.id = (c.receivers m.channel).expected := congrArg MessageKey.id (hmkey.trans hkey)
  have hentry : entry.id = m.id := congrArg MessageKey.id hmkey.symm
  have hload : c.recvArena.load entry.bytes maxMessage = some m.payload := by
    rw [← hnum.payloadOf_eq hm, hmkey]
    refine Arena.load_owned h.owns (List.mem_map.2 ⟨entry, hmem, rfl⟩) ?_
    rw [← hmkey, hnum.payloadOf_eq hm]
    exact (hnum.wired m hm).2
  have howns := h.owns
  rw [hitems, List.map_append, List.map_cons] at howns
  have hfresh : ∀ e ∈ before ++ after, e.key ≠ m.key := by
    intro e he heq
    have hnodup := h.nodup
    rw [hitems, List.map_append, List.map_cons] at hnodup
    refine (List.nodup_cons.1 (List.perm_middle.nodup_iff.1 hnodup)).1 ?_
    rw [← hmkey, ← heq, ← List.map_append]
    exact List.mem_map_of_mem he
  have htake : c.takeHeld m.channel entry =
      c.advanceTo m (c.held.removeFirst fun e => e.key == entry.key) (c.recvArena.release entry.bytes) := by
    rw [takeHeld, advanceTo, hentry]
  refine ⟨m, hm, by rw [hentry], hload, ?_, ?_⟩
  · rw [htake]
    refine h.advance hnum hm hid ?_ List.eraseP_sublist (by rw [herase]; exact hfresh)
    rw [herase, List.map_append]
    exact Arena.release_owns howns
  · rw [htake]
    refine (advanceTo_advances _ _ hnum hm hid fun e he => ?_).1
    rw [herase]
    rw [hitems] at he
    simp only [List.mem_append, List.mem_cons] at he ⊢
    rcases he with he | rfl | he
    · exact .inl (.inl he)
    · exact .inr hmkey.symm
    · exact .inl (.inr he)

/-- **Flushing** delivers what a delivery unblocked, in order. -/
theorem flushOrdered_spec (hnum : Numbered set sent) (channel : Nat) (fuel : Nat)
    (h : OrderedSoFar set sent c delivered) :
    OrderedSoFar set sent (flushOrdered channel fuel c).1 (delivered ++ (flushOrdered channel fuel c).2) ∧
      c.Advances (flushOrdered channel fuel c).1 := by
  refine flushOrdered_rule (P := fun c' out => OrderedSoFar set sent c' out ∧ c.Advances c')
    (fun {c' out entry} h' hnext => ?_) fuel _ ⟨h, .refl c⟩
  obtain ⟨m, hm, hdel, hload, hord, hadv⟩ := takeHeld_spec hnum h'.1 hnext
  rw [hload, Option.map_some, Option.toList_some, hdel]
  exact ⟨hord, h'.2.trans hadv⟩

/-! ## Holding -/

/-- The sent messages an ordered channel is not yet up to. -/
def ahead (set : ChannelSet) (c : Channels) (sent : List Message) : List Message :=
  sent.filter fun m =>
    decide (set.kind m.channel = some .reliableOrdered ∧ (c.receivers m.channel).expected.toNat < m.id.toNat)

/-- Blocks it would take to hold all of them. -/
def aheadBlocks (set : ChannelSet) (c : Channels) (sent : List Message) : Nat :=
  ((ahead set c sent).map fun m => Arena.blocksFor m.payload.length).sum

theorem mem_ahead {m : Message} : m ∈ ahead set c sent ↔
    m ∈ sent ∧ set.kind m.channel = some .reliableOrdered ∧ (c.receivers m.channel).expected.toNat < m.id.toNat := by
  simp [ahead]

theorem sum_le_aheadBlocks {l : List Message} (hnodup : l.Nodup) (hsub : ∀ m ∈ l, m ∈ ahead set c sent) :
    (l.map fun m => Arena.blocksFor m.payload.length).sum ≤ aheadBlocks set c sent := by
  obtain ⟨l', hperm, hl'⟩ := List.Nodup.subperm hnodup hsub
  rw [← (hperm.map fun m => Arena.blocksFor m.payload.length).sum_eq]
  exact (hl'.map _).sum_le_sum fun _ _ => Nat.zero_le _

theorem aheadBlocks_anti {c' : Channels} (h : ∀ channel, (c.receivers channel).expected.toNat ≤
    (c'.receivers channel).expected.toNat) : aheadBlocks set c' sent ≤ aheadBlocks set c sent := by
  refine ((List.monotone_filter_right sent fun m hm => ?_).map _).sum_le_sum fun _ _ => Nat.zero_le _
  simp only [decide_eq_true_eq] at hm ⊢
  exact ⟨hm.1, lt_of_le_of_lt (h m.channel) hm.2⟩

theorem length_le_blocks (l : List Message) : l.length ≤ (l.map fun m => Arena.blocksFor m.payload.length).sum := by
  refine le_of_eq_of_le ?_ (List.length_le_sum_of_one_le _ fun x hx => ?_)
  · simp
  · obtain ⟨m, -, rfl⟩ := List.mem_map.1 hx
    exact Arena.blocksFor_pos _

/-- Every message ahead is a block at least, so ids run at most as far ahead. -/
theorem id_le_of_aheadBlocks (hnum : Numbered set sent) {m : Message} (hm : m ∈ sent)
    (hkind : set.kind m.channel = some .reliableOrdered) :
    m.id.toNat ≤ (c.receivers m.channel).expected.toNat + aheadBlocks set c sent := by
  have hlt := hnum.id_lt hm
  set e := (c.receivers m.channel).expected.toNat with he
  set l := ((onChannel m.channel sent).take (m.id.toNat + 1)).drop (e + 1) with hl
  have hsub : ∀ x ∈ l, x ∈ ahead set c sent := by
    intro x hx
    obtain ⟨i, hi⟩ := List.mem_iff_getElem?.1 hx
    rw [hl, List.getElem?_drop, List.getElem?_take] at hi
    split at hi
    · have hid := hnum.id_of_get hi
      obtain ⟨hmem, hchan⟩ := mem_onChannel.1 (List.mem_of_getElem? hi)
      rw [mem_ahead, hchan]
      exact ⟨hmem, hkind, by omega⟩
    · cases hi
  have hnodup : l.Nodup := (hnum.nodup_onChannel m.channel).sublist ((List.drop_sublist _ _).trans (List.take_sublist _ _))
  have hsum := sum_le_aheadBlocks hnodup hsub
  have hblocks := length_le_blocks l
  have hlen : l.length = m.id.toNat + 1 - (e + 1) := by rw [hl, List.length_drop, List.length_take]; omega
  omega

def Held.message (sent : List Message) (e : Held) : Message := ⟨e.channel, e.id, payloadOf sent e.key⟩

theorem OrderedSoFar.message_mem (h : OrderedSoFar set sent c delivered) (hnum : Numbered set sent) {e : Held}
    (he : e ∈ c.held.items) : e.message sent ∈ sent := by
  obtain ⟨-, ⟨m, hm, hkey⟩, -⟩ := h.held e he
  have hchan : m.channel = e.channel := congrArg MessageKey.channel hkey
  have hid : m.id = e.id := congrArg MessageKey.id hkey
  rw [Held.message, ← hkey, hnum.payloadOf_eq hm, ← hchan, ← hid]
  exact hm

/-- A message ahead that is not held yet finds room. -/
theorem OrderedSoFar.room (h : OrderedSoFar set sent c delivered) (hset : c.Settled) (hnum : Numbered set sent)
    (hfit : aheadBlocks set c sent ≤ arenaBlocks) {m : Message} (hm : m ∈ ahead set c sent)
    (hnew : ∀ e ∈ c.held.items, e.key ≠ m.key) :
    c.held.isFull = false ∧ Arena.blocksFor m.payload.length ≤ c.recvArena.freeCount := by
  have hcount := h.owns.count
  have hnodup : ((c.held.items.map (Held.message sent)) ++ [m]).Nodup := by
    refine List.nodup_append.2 ⟨?_, by simp, ?_⟩
    · refine List.Nodup.of_map Message.key ?_
      rw [List.map_map]
      exact h.nodup
    · intro x hx y hy
      rw [List.mem_singleton.1 hy]
      obtain ⟨e, he, rfl⟩ := List.mem_map.1 hx
      intro heq
      exact hnew e he (by rw [← heq]; rfl)
  have hsub : ∀ x ∈ (c.held.items.map (Held.message sent)) ++ [m], x ∈ ahead set c sent := by
    intro x hx
    rcases List.mem_append.1 hx with hx | hx
    · obtain ⟨e, he, rfl⟩ := List.mem_map.1 hx
      obtain ⟨hkind, -, hle⟩ := h.held e he
      have hne : e.id.toNat ≠ (c.receivers e.channel).expected.toNat := fun heq => hset e he (UInt32.toNat_inj.1 heq)
      exact mem_ahead.2 ⟨h.message_mem hnum he, hkind, by
        show (c.receivers e.channel).expected.toNat < e.id.toNat
        omega⟩
    · rw [List.mem_singleton.1 hx]; exact hm
  have hsum := sum_le_aheadBlocks hnodup hsub
  have hlen := length_le_blocks (c.held.items.map (Held.message sent))
  have hlive : ((c.held.items.map (Held.message sent)).map fun m => Arena.blocksFor m.payload.length).sum =
      Arena.blocksOf (c.held.items.map fun e => (e.bytes, payloadOf sent e.key)) := by
    rw [Arena.blocksOf, List.map_map, List.map_map]
    rfl
  have hpos := Arena.blocksFor_pos m.payload.length
  rw [List.map_append, List.sum_append] at hsum
  rw [List.length_map] at hlen
  simp only [List.map_singleton, List.sum_singleton] at hsum
  constructor
  · refine FixedVec.isFull_eq_false ?_
    show _ < arenaBlocks
    omega
  · omega

/-! ## One message -/

theorem OrderedSoFar.hold (h : OrderedSoFar set sent c delivered) (hset : c.Settled) (hnum : Numbered set sent)
    (hfit : aheadBlocks set c sent ≤ arenaBlocks) {m : Message} (hm : m ∈ ahead set c sent)
    (hnew : ∀ e ∈ c.held.items, e.key ≠ m.key) :
    ∃ arena r, c.recvArena.store m.payload = (arena, some r) ∧ c.held.isFull = false ∧
      OrderedSoFar set sent { c with recvArena := arena, held := (c.held.push ⟨m.channel, m.id, r⟩).1 } delivered ∧
      Settled { c with recvArena := arena, held := (c.held.push ⟨m.channel, m.id, r⟩).1 } ∧
      c.Advances { c with recvArena := arena, held := (c.held.push ⟨m.channel, m.id, r⟩).1 } ∧
      Got { c with recvArena := arena, held := (c.held.push ⟨m.channel, m.id, r⟩).1 } m.key := by
  obtain ⟨hfull, hfree⟩ := h.room hset hnum hfit hm hnew
  obtain ⟨hsent, hkind, hlt⟩ := mem_ahead.1 hm
  have hlen : m.payload.length ≤ 65535 := by
    have hle := (hnum.wired m hsent).2
    have hmax : maxMessage = 1024 := rfl
    omega
  obtain ⟨arena, r, hstore, howns, -⟩ := Arena.store_owns h.owns hlen hfree
  obtain ⟨hitems, -⟩ := FixedVec.push_of_not_full hfull ⟨m.channel, m.id, r⟩
  have hpay : payloadOf sent (Held.key ⟨m.channel, m.id, r⟩) = m.payload := hnum.payloadOf_eq hsent
  have hcases : ∀ {e}, e ∈ (c.held.push ⟨m.channel, m.id, r⟩).1.items → e ∈ c.held.items ∨ e = ⟨m.channel, m.id, r⟩ := by
    intro e he
    rw [hitems] at he
    simpa using he
  refine ⟨arena, r, hstore, hfull, ⟨h.set_eq, h.inOrder, ?_, ?_, ?_, h.dropped⟩, ?_, ⟨fun _ => le_rfl, ?_⟩, ?_⟩
  · dsimp only
    rw [hitems, List.map_append, List.map_singleton, hpay]
    exact howns
  · intro e he
    rcases hcases he with he | rfl
    · exact h.held e he
    · exact ⟨hkind, ⟨m, hsent, rfl⟩, hlt.le⟩
  · dsimp only
    rw [hitems, List.map_append, List.nodup_append]
    refine ⟨h.nodup, by simp, fun x hx y hy => ?_⟩
    obtain ⟨e, he, rfl⟩ := List.mem_map.1 hx
    rw [List.map_singleton, List.mem_singleton] at hy
    rw [hy]
    exact hnew e he
  · exact hset.push hlt hfull arena r
  · rintro key (hkey | ⟨e, he, hek⟩)
    · exact .inl hkey
    · exact .inr ⟨e, by dsimp only; rw [hitems]; simp [he], hek⟩
  · exact .inr ⟨⟨m.channel, m.id, r⟩, by dsimp only; rw [hitems]; simp, rfl⟩

/-- **Where what is ahead fits, an ordered message is never lost.** -/
theorem dispatch_ordered (h : OrderedSoFar set sent c delivered) (hset : c.Settled) (hnum : Numbered set sent)
    (hfit : aheadBlocks set c sent ≤ arenaBlocks) {m : Message} (hm : m ∈ sent)
    (hkind : set.kind m.channel = some .reliableOrdered)
    (hnear : (c.receivers m.channel).expected.toNat ≤ m.id.toNat + 32767) :
    OrderedSoFar set sent (c.dispatch m.channel .reliableOrdered m.id m.payload).1
        (delivered ++ (c.dispatch m.channel .reliableOrdered m.id m.payload).2) ∧
      (c.dispatch m.channel .reliableOrdered m.id m.payload).1.Settled ∧
      c.Advances (c.dispatch m.channel .reliableOrdered m.id m.payload).1 ∧
      (c.dispatch m.channel .reliableOrdered m.id m.payload).1.Got m.key := by
  have hfar := id_le_of_aheadBlocks (c := c) hnum hm hkind
  have hblocks : arenaBlocks = 64 := rfl
  have hstep := c.dispatch_orderedStep (m := m) (by omega) (by omega)
  generalize c.dispatch m.channel .reliableOrdered m.id m.payload = r at hstep
  cases hstep with
  | late hlt =>
    rw [List.append_nil]
    exact ⟨h, hset, .refl c, .inl hlt⟩
  | again hgt he hek =>
    rw [List.append_nil]
    exact ⟨h, hset, .refl c, .inr ⟨_, he, hek⟩⟩
  | turn hid =>
    have hdelivered := h.advance hnum hm hid h.owns (List.Sublist.refl _) (hset.fresh hid)
    obtain ⟨hadv, hgot⟩ := advanceTo_advances c.held c.recvArena hnum hm hid fun e he => .inl he
    obtain ⟨hord, hadv'⟩ := flushOrdered_spec hnum m.channel c.held.items.length hdelivered
    refine ⟨?_, hset.turn m, hadv.trans hadv', hadv'.got _ hgot⟩
    rw [List.append_assoc] at hord
    exact hord
  | dropped hgt hnew hno =>
    obtain ⟨arena, r, hstore, hfull, -⟩ := h.hold hset hnum hfit (mem_ahead.2 ⟨hm, hkind, hgt⟩) hnew
    rcases hno with ⟨hfull', -⟩ | ⟨-, hstore'⟩
    · rw [hfull] at hfull'
      cases hfull'
    · rw [hstore] at hstore'
      cases hstore'
  | held hgt hnew hfull hstore =>
    obtain ⟨arena, r, hstore', -, hres⟩ := h.hold hset hnum hfit (mem_ahead.2 ⟨hm, hkind, hgt⟩) hnew
    rw [hstore] at hstore'
    cases hstore'
    rw [List.append_nil]
    exact hres

theorem dispatch_other {kind : ChannelKind} (hkind : kind ≠ .reliableOrdered) (c : Channels) (channel : Nat)
    (id : MessageId) (payload : List UInt8) :
    (∀ ch, ((c.dispatch channel kind id payload).1.receivers ch).expected = (c.receivers ch).expected) ∧
      (c.dispatch channel kind id payload).1.held = c.held ∧
      (c.dispatch channel kind id payload).1.recvArena = c.recvArena ∧
      (c.dispatch channel kind id payload).1.droppedInbound = c.droppedInbound := by
  have hclass : (∀ ch, ((c.classify channel kind id).1.receivers ch).expected = (c.receivers ch).expected) ∧
      (c.classify channel kind id).1.held = c.held ∧ (c.classify channel kind id).1.recvArena = c.recvArena ∧
      (c.classify channel kind id).1.droppedInbound = c.droppedInbound ∧ (c.classify channel kind id).2 ≠ .hold := by
    have hupdate : ∀ state : ReceiverState, state.expected = (c.receivers channel).expected → ∀ ch,
        ((c.setReceiver channel state).receivers ch).expected = (c.receivers ch).expected := by
      intro state hstate ch
      by_cases hc : ch = channel
      · subst hc; simpa [setReceiver] using hstate
      · simp [setReceiver, hc]
    cases kind with
    | unreliable => exact ⟨fun _ => rfl, rfl, rfl, rfl, by simp [classify]⟩
    | unreliableSequenced =>
      simp only [classify]
      split
      · exact ⟨fun _ => rfl, rfl, rfl, rfl, by simp⟩
      · exact ⟨hupdate _ rfl, rfl, rfl, rfl, by simp⟩
    | reliableUnordered =>
      simp only [classify]
      refine ⟨hupdate _ ?_, rfl, rfl, rfl, by split <;> simp⟩
      unfold ReceiverState.acceptUnordered
      split
      · rfl
      · dsimp only
        split
        · rfl
        · split
          · rfl
          · split <;> rfl
    | reliableOrdered => exact absurd rfl hkind
  rw [dispatch]
  revert hclass
  generalize c.classify channel kind id = r
  obtain ⟨c', a⟩ := r
  intro hclass
  obtain ⟨hexp, hheld, harena, hdrop, hhold⟩ := hclass
  cases a with
  | hold => exact absurd rfl hhold
  | discard => exact ⟨hexp, hheld, harena, hdrop⟩
  | deliver =>
    dsimp only
    rw [if_neg (fun hcon => hkind hcon.1)]
    exact ⟨hexp, hheld, harena, hdrop⟩

/-- **Any message of a packet arriving**, its id resolved from the wire. -/
theorem receive_ordered (h : OrderedSoFar set sent c delivered) (hset : c.Settled) (hnum : Numbered set sent)
    (hfit : aheadBlocks set c sent ≤ arenaBlocks) {m : Message} (hm : m ∈ sent)
    (hnear : set.kind m.channel = some .reliableOrdered → (onChannel m.channel sent).length ≤ m.id.toNat + 32767)
    {v : Channels × List Message} (hrecv : c.receive m = some v) :
    OrderedSoFar set sent v.1 (delivered ++ v.2) ∧ v.1.Settled ∧ c.Advances v.1 ∧
      (set.kind m.channel = some .reliableOrdered → v.1.Got m.key) := by
  simp only [receive, Option.bind_eq_some_iff, Option.map_eq_some_iff] at hrecv
  obtain ⟨kind, hkind, id, hid, rfl⟩ := hrecv
  have hkind' : set.kind m.channel = some kind := by rw [← h.set_eq]; exact hkind
  by_cases hord : kind = .reliableOrdered
  · subst hord
    obtain ⟨-, hle⟩ := h.inOrder m.channel hkind'
    have hnear' := hnear hkind'
    have hfar := id_le_of_aheadBlocks (c := c) hnum hm hkind'
    have hblocks : arenaBlocks = 64 := rfl
    have hres : c.resolveId m.channel .reliableOrdered m.id.toWire = some m.id := by
      show MessageId.fromWire (c.receivers m.channel).expected m.id.toWire = some m.id
      exact MessageId.fromWire_toWire (by omega) (by omega)
    rw [hres] at hid
    obtain rfl := Option.some.inj hid
    obtain ⟨h₁, h₂, h₃, h₄⟩ := dispatch_ordered h hset hnum hfit hm hkind' (by omega)
    exact ⟨h₁, h₂, h₃, fun _ => h₄⟩
  · obtain ⟨hexp, hheld, harena, hdrop⟩ := dispatch_other hord c m.channel id m.payload
    have hout := (dispatch_own c m.channel kind id m.payload).2
    have hgot : ∀ key, c.Got key → (c.dispatch m.channel kind id m.payload).1.Got key := by
      rintro key (hlt | hmem)
      · exact .inl (by rw [hexp]; exact hlt)
      · exact .inr (by rw [hheld]; exact hmem)
    refine ⟨⟨(dispatch_set c m.channel kind id m.payload).trans h.set_eq, fun ch hch => ?_, ?_, ?_, ?_, ?_⟩, ?_,
      ⟨fun ch => (congrArg UInt32.toNat (hexp ch)).ge, hgot⟩, fun hcon => ?_⟩
    · have hnone : onChannel ch (c.dispatch m.channel kind id m.payload).2 = [] := by
        refine List.filter_eq_nil_iff.2 fun x hx hc => ?_
        have hxc : x.channel = ch := by simpa using hc
        rw [← hxc, hout x hx, hkind'] at hch
        exact hord (Option.some.inj hch)
      rw [onChannel_append, hnone, List.append_nil, hexp]
      exact h.inOrder ch hch
    · rw [harena, hheld]; exact h.owns
    · rw [hheld]
      intro e he
      rw [hexp]
      exact h.held e he
    · rw [hheld]; exact h.nodup
    · rw [hdrop]; exact h.dropped
    · intro e he
      rw [hheld] at he
      rw [hexp]
      exact hset e he
    · rw [hkind'] at hcon
      exact absurd (Option.some.inj hcon) hord

/-- **A whole packet arriving.** If none of it is an error, every ordered
message in it is delivered or held. -/
theorem receiveAll_ordered (hnum : Numbered set sent) {ms : List Message} (hms : ∀ m ∈ ms, m ∈ sent)
    (hnear : ∀ m ∈ ms, set.kind m.channel = some .reliableOrdered →
      (onChannel m.channel sent).length ≤ m.id.toNat + 32767)
    (h : OrderedSoFar set sent c delivered) (hset : c.Settled) (hfit : aheadBlocks set c sent ≤ arenaBlocks) :
    OrderedSoFar set sent (receiveAll ms c).1 (delivered ++ (receiveAll ms c).2.1) ∧ (receiveAll ms c).1.Settled ∧
      c.Advances (receiveAll ms c).1 ∧
      ((receiveAll ms c).2.2 = true → ∀ m ∈ ms, set.kind m.channel = some .reliableOrdered →
        (receiveAll ms c).1.Got m.key) := by
  refine (receiveAll_rule ms (P := fun got c' out => OrderedSoFar set sent c' out ∧ c'.Settled ∧
      c.Advances c' ∧ ∀ m ∈ got, set.kind m.channel = some .reliableOrdered → c'.Got m.key)
    (fun {got m c' out v} hm hrun hv => ?_) delivered ⟨h, hset, .refl c, by simp⟩).elim fun got ⟨hgot, hall⟩ =>
      ⟨hgot.1, hgot.2.1, hgot.2.2.1, fun hok m hm => hgot.2.2.2 m (hall hok ▸ hm)⟩
  obtain ⟨hso, hsettled, hadv, hin⟩ := hrun
  obtain ⟨h₁, h₂, h₃, h₄⟩ := receive_ordered hso hsettled hnum ((aheadBlocks_anti hadv.expected).trans hfit)
    (hms m hm) (hnear m hm) hv
  refine ⟨h₁, h₂, hadv.trans h₃, fun x hx hxk => ?_⟩
  rcases List.mem_append.1 hx with hx | hx
  · exact h₃.got _ (hin x hx hxk)
  · obtain rfl := List.mem_singleton.1 hx
    exact h₄ hxk

end

theorem OrderedSoFar.append {set : ChannelSet} {sent : List Message} {c : Channels} {delivered : List Message}
    (h : OrderedSoFar set sent c delivered) (m : Message) : OrderedSoFar set (sent ++ [m]) c delivered where
  set_eq := h.set_eq
  inOrder := by
    intro channel hk
    obtain ⟨hdel, hle⟩ := h.inOrder channel hk
    rw [onChannel_append, List.take_append_of_le_length hle, List.length_append]
    exact ⟨hdel, hle.trans (Nat.le_add_right _ _)⟩
  owns := by
    have hsame : (c.held.items.map fun e => (e.bytes, payloadOf (sent ++ [m]) e.key)) =
        c.held.items.map fun e => (e.bytes, payloadOf sent e.key) :=
      List.map_congr_left fun e he => by rw [payloadOf_append (h.held e he).2.1]
    rw [hsame]
    exact h.owns
  held := by
    intro e he
    obtain ⟨hk, ⟨x, hx, hkey⟩, hle⟩ := h.held e he
    exact ⟨hk, ⟨x, by simp [hx], hkey⟩, hle⟩
  nodup := h.nodup
  dropped := h.dropped

/-! ## The link -/

namespace Link

/-- The message is with the receiving application, or held for it whole. -/
def Accounted (s : Link) (m : Message) : Prop :=
  m ∈ s.delivered ∨ ∃ h ∈ s.receiver.held.items, h.key = m.key ∧
    s.receiver.recvArena.load h.bytes maxMessage = some m.payload

instance (s : Link) (m : Message) : Decidable (s.Accounted m) := inferInstanceAs (Decidable (_ ∨ _))

/-- No ordered message is released before it is delivered or held, and none
was ever dropped for want of hold storage. -/
def NoLoss (s : Link) : Prop :=
  s.receiver.droppedInbound = 0 ∧
    ∀ m ∈ s.released, s.receiver.kind m.channel = some .reliableOrdered → s.Accounted m

/-- A send leaves what the ordered channels may yet have to hold within the
hold storage, and no counter wraps; a packet is read in time. -/
def OrderedRoom (s : Link) : LinkOp → Prop
  | .send channel payload =>
    (onChannel channel s.sent).length + 1 < 2 ^ 32 ∧
      aheadBlocks s.receiver.set s.receiver (s.sent ++ [⟨channel, s.sender.nextIds channel, payload⟩]) ≤ arenaBlocks
  | .read i => s.Timely .reliableOrdered i
  | _ => True

instance (s : Link) : (op : LinkOp) → Decidable (s.OrderedRoom op)
  | .send _ _ => inferInstanceAs (Decidable (_ ∧ _))
  | .read i => inferInstanceAs (Decidable (s.Timely _ i))
  | .build _ _ | .commit _ | .ack _ | .lose _ | .requeue _ => inferInstanceAs (Decidable True)

theorem OrderedRoom.noWrap {s : Link} {op : LinkOp} (h : s.OrderedRoom op) : s.NoWrap op := by
  cases op with
  | send channel payload => exact h.1
  | build | commit | read | ack | lose | requeue => trivial

/-- What the ordered channels' guard keeps. -/
structure OrderedSound (set : ChannelSet) (s : Link) : Prop where
  sound : s.Sound set
  soFar : OrderedSoFar set s.sent s.receiver s.delivered
  settled : s.receiver.Settled
  fits : aheadBlocks set s.receiver s.sent ≤ arenaBlocks
  told : s.Told set .reliableOrdered fun s key => s.receiver.Got key

theorem start_orderedSound (set : ChannelSet) : (start set).OrderedSound set where
  sound := start_sound set
  soFar := ⟨rfl, fun _ _ => ⟨rfl, Nat.zero_le _⟩, Arena.new_owns (by decide) (by decide), by simp [start, Channels.new],
    by simp [start, Channels.new], rfl⟩
  settled := by intro e he; cases he
  fits := Nat.zero_le _
  told := ⟨by simp [start], by simp [start]⟩

/-- **One step** within the guard. -/
theorem OrderedSound.step {set : ChannelSet} {s s' : Link} {op : LinkOp} (h : s.OrderedSound set)
    (hok : s.OrderedRoom op) (hstep : s.apply op = some s') : s'.OrderedSound set := by
  obtain ⟨hsound, heff⟩ := h.sound.step hok.noWrap hstep
  have htold := h.told.step heff
  cases heff with
  | quiet hop hr hs hd hrel harr =>
    refine ⟨hsound, by rw [hs, hr, hd]; exact h.soFar, by rw [hr]; exact h.settled, by rw [hs, hr]; exact h.fits, ?_⟩
    exact htold (by rw [hr]; exact fun _ hg => hg) fun i packet hcon => absurd hcon (hop i)
  | sent m hid hr hs hd hrel harr =>
    refine ⟨hsound, by rw [hs, hr, hd]; exact h.soFar.append m, by rw [hr]; exact h.settled, ?_, ?_⟩
    · have hnext : s.sender.nextIds m.channel = m.id := by rw [← UInt32.toNat_inj, h.sound.next, hid]
      have hroom := hok.2
      rw [h.sound.receiverSet, hnext] at hroom
      rw [hs, hr]
      exact hroom
    · exact htold (by rw [hr]; exact fun _ hg => hg) nofun
  | read i packet r hget hrun hr hs hd hrel harr =>
    obtain ⟨g₁, g₂, g₃, g₄⟩ := receiveAll_ordered h.sound.numbered (h.sound.carried hget)
      (Timely.near h.sound hok hget) h.soFar h.settled h.fits
    rw [hrun] at g₁ g₂ g₃ g₄
    refine ⟨hsound, by rw [hs, hr, hd]; exact g₁, by rw [hr]; exact g₂, ?_, htold (by rw [hr]; exact g₃.got) ?_⟩
    · rw [hs, hr]
      exact (aheadBlocks_anti g₃.expected).trans h.fits
    · intro j packet' hj hget' hok x hx hxk
      obtain rfl := LinkOp.read.inj hj
      obtain rfl := Option.some.inj (hget.symm.trans hget')
      rw [hrun] at hok
      rw [hr]
      exact g₄ hok _ (List.mem_map_of_mem hx) hxk
  | acked i packet ms hp ha hms hr hs hd hrel harr =>
    refine ⟨hsound, by rw [hs, hr, hd]; exact h.soFar, by rw [hr]; exact h.settled, by rw [hs, hr]; exact h.fits, ?_⟩
    exact htold (by rw [hr]; exact fun _ hg => hg) nofun

theorem OrderedSound.noLoss {set : ChannelSet} {s : Link} (h : s.OrderedSound set) : s.NoLoss := by
  refine ⟨h.soFar.dropped, fun m hm hk => ?_⟩
  have hkind : set.kind m.channel = some .reliableOrdered := by rw [← h.sound.receiverSet]; exact hk
  obtain ⟨hsent, hgot⟩ := h.told.released m hm hkind
  rcases hgot with hlt | ⟨e, he, hkey⟩
  · left
    have hget := h.sound.numbered.get hsent
    obtain ⟨hdel, -⟩ := h.soFar.inOrder m.channel hkind
    have hmem : m ∈ onChannel m.channel s.delivered := by
      rw [hdel]
      refine List.mem_of_getElem? (i := m.id.toNat) ?_
      rw [List.getElem?_take]
      exact (if_pos hlt).trans hget
    exact (mem_onChannel.1 hmem).1
  · right
    refine ⟨e, he, hkey, ?_⟩
    have hpay : payloadOf s.sent e.key = m.payload := by rw [hkey]; exact h.sound.numbered.payloadOf_eq hsent
    rw [← hpay]
    refine Arena.load_owned h.soFar.owns (List.mem_map.2 ⟨e, he, rfl⟩) ?_
    rw [hpay]
    exact (h.sound.numbered.wired m hsent).2

end Link

/-- **No ordered message is lost** in a run that keeps what may have to be held
within the hold storage. -/
theorem ordered_no_loss {set : ChannelSet} {s : Link} (h : Lts.Reach (linkSys set) Link.OrderedRoom s) : s.NoLoss := by
  have hsound : s.OrderedSound set := by
    refine Lts.Reach.invariant ?_ ?_ h
    · rintro s rfl
      exact Link.start_orderedSound set
    · intro s op s' _ hs hok hstep
      exact hs.step hok hstep
  exact hsound.noLoss

/-- The second packet overtakes the first: its message is held, acknowledged
and released, and handed over after the first's. -/
def overtaking : List LinkOp :=
  [.send 0 [7], .smallBuild, .commit 0, .send 0 [8], .smallBuild, .commit 1, .read 1, .ack 1, .read 0, .ack 0]

theorem ordered_no_loss_overtaking :
    ∃ s, Lts.Reach (linkSys orderedOnly) Link.OrderedRoom s ∧ s.NoLoss ∧
      s.released = [⟨0, 1, [8]⟩, ⟨0, 0, [7]⟩] ∧ s.delivered = [⟨0, 0, [7]⟩, ⟨0, 1, [8]⟩] := by
  obtain ⟨s, hreach, hlogs⟩ : ∃ s, Lts.Reach (linkSys orderedOnly) Link.OrderedRoom s ∧
      s.released = [⟨0, 1, [8]⟩, ⟨0, 0, [7]⟩] ∧ s.delivered = [⟨0, 0, [7]⟩, ⟨0, 1, [8]⟩] :=
    Lts.Reach.ofRun Link.OrderedRoom overtaking _ (by decide +kernel)
  exact ⟨s, hreach, ordered_no_loss hreach, hlogs⟩

/-- The first message's packet is delayed while 63 more are sent, held and
acknowledged; their slots at the sender are free again, and of the two
messages sent into them the second finds the hold storage full. -/
def overflowing : List LinkOp :=
  [.send 0 [0], .smallBuild, .commit 0] ++
    (List.range 63).map (fun i => .send 0 [UInt8.ofNat (i + 1)]) ++
    (List.range 8).flatMap (fun i => [.smallBuild, .commit (i + 1), .read (i + 1), .ack (i + 1)]) ++
    [.send 0 [64], .send 0 [65], .smallBuild, .commit 9, .read 9, .ack 9]

/-- **The hold storage overflows**: `on_acked` releases a message the receiver
neither delivered nor holds. -/
theorem hold_overflows :
    ∃ s, Lts.Reachable (linkSys orderedOnly) s ∧ s.receiver.droppedInbound = 1 ∧ ¬ s.NoLoss ∧
      ∃ m ∈ s.released, s.receiver.kind m.channel = some .reliableOrdered ∧ ¬ s.Accounted m := by
  obtain ⟨s, hreach, hdrop, m, hm, hk, hlost⟩ : ∃ s, Lts.Reachable (linkSys orderedOnly) s ∧
      s.receiver.droppedInbound = 1 ∧
        ∃ m ∈ s.released, s.receiver.kind m.channel = some .reliableOrdered ∧ ¬ s.Accounted m :=
    Lts.Reach.ofRun (fun _ _ => True) overflowing _ (by decide +kernel)
  refine ⟨s, hreach, hdrop, ?_, m, hm, hk, hlost⟩
  rintro ⟨-, hall⟩
  exact hlost (hall m hm hk)

end HexNet
