/-
A receiver that can make out what a packet carries. Ids travel as sixteen
bits, resolved against what the channel has come to: `Awaits c ms` says that
the messages `ms` are within reach of `c`, read one after another, and
`Awaits.dispatch` that reading one leaves the rest so. `readBody_agrees` is
what follows for a whole body.
-/
import HexNet.Ordered
import HexNet.Reading

namespace HexNet

open BitFields

/-! ## What a receiver is ready for -/

/-- A receiver that has delivered nothing has its references at the first id. -/
structure ReceiverState.Started (s : ReceiverState) : Prop where
  newest_eq : s.hasNewest = false → s.newest = .first
  seen_eq : s.seenStarted = false → s.seenNewest = .first

theorem ReceiverState.acceptUnordered_started {s : ReceiverState} (h : s.Started) (id : MessageId) :
    (s.acceptUnordered id).1.Started := by
  unfold acceptUnordered
  split
  · exact ⟨h.newest_eq, fun hs => by cases hs⟩
  next hs =>
    have hs : s.seenStarted = true := by simpa using hs
    have hseen : ∀ {i : MessageId}, s.seenStarted = false → i = .first := fun hf => by rw [hs] at hf; cases hf
    dsimp only
    split
    · exact ⟨h.newest_eq, hseen⟩
    · split
      · exact h
      · split
        · exact h
        · exact ⟨h.newest_eq, hseen⟩

/-- The unordered reference only moves forward, to the id that arrived. -/
theorem ReceiverState.acceptUnordered_newest {s : ReceiverState} (h : s.Started) (id : MessageId)
    (hahead : id.toNat < s.seenNewest.toNat + 2 ^ 31) (hbehind : s.seenNewest.toNat ≤ id.toNat + 2 ^ 31) :
    s.seenNewest.toNat ≤ (s.acceptUnordered id).1.seenNewest.toNat ∧
      ((s.acceptUnordered id).1.seenNewest = s.seenNewest ∨ (s.acceptUnordered id).1.seenNewest = id) := by
  unfold acceptUnordered
  split
  next hs =>
    rw [h.seen_eq (by simpa using hs)]
    exact ⟨Nat.zero_le _, .inr rfl⟩
  · dsimp only
    rw [MessageId.distanceFrom_eq hahead hbehind]
    split
    next hlt => exact ⟨by dsimp only; omega, .inr rfl⟩
    · split
      · exact ⟨le_rfl, .inl rfl⟩
      · split <;> exact ⟨le_rfl, .inl rfl⟩

namespace Channels

def Started (c : Channels) : Prop := ∀ channel, (c.receivers channel).Started

theorem new_started (set : ChannelSet) : (Channels.new set).Started := fun _ => ⟨fun _ => rfl, fun _ => rfl⟩

theorem Started.setReceiver {c : Channels} (h : c.Started) (channel : Nat) {s : ReceiverState} (hs : s.Started) :
    (c.setReceiver channel s).Started := by
  intro ch
  by_cases hch : ch = channel
  · subst hch
    simpa [Channels.setReceiver] using hs
  · rw [setReceiver_other c hch]
    exact h ch

theorem Started.classify {c : Channels} (h : c.Started) (channel : Nat) (kind : ChannelKind) (id : MessageId) :
    (c.classify channel kind id).1.Started := by
  have hown := h channel
  cases kind with
  | unreliable => exact h
  | unreliableSequenced =>
    simp only [Channels.classify]
    split
    · exact h
    · exact h.setReceiver channel ⟨by simp, hown.seen_eq⟩
  | reliableUnordered => exact h.setReceiver channel (ReceiverState.acceptUnordered_started hown id)
  | reliableOrdered =>
    simp only [Channels.classify]
    split
    · exact h
    · split
      · exact h.setReceiver channel ⟨hown.newest_eq, hown.seen_eq⟩
      · split <;> exact h

theorem Started.flushOrdered (channel : Nat) (fuel : Nat) {c : Channels} (h : c.Started) :
    (Channels.flushOrdered channel fuel c).1.Started := by
  induction fuel generalizing c with
  | zero => exact h
  | succ fuel ih =>
    rw [Channels.flushOrdered]
    split
    · exact h
    next entry _ =>
      exact ih (Started.setReceiver h channel ⟨(h channel).newest_eq, (h channel).seen_eq⟩)

theorem Started.dispatch {c : Channels} (h : c.Started) (channel : Nat) (kind : ChannelKind) (id : MessageId)
    (payload : List UInt8) : (c.dispatch channel kind id payload).1.Started := by
  have hclass := h.classify channel kind id
  rw [Channels.dispatch]
  split
  next c' heq => rw [heq] at hclass; exact hclass
  next c' heq =>
    rw [heq] at hclass
    split
    · exact hclass.flushOrdered channel _
    · exact hclass
  next c' heq =>
    rw [heq] at hclass
    split
    · exact hclass
    · split <;> exact hclass

/-- Releasing held messages leaves fewer of them, and moves the channel's
expected id on by one for each. -/
theorem flushOrdered_expected (channel : Nat) (fuel : Nat) {c : Channels}
    (hheld : ∀ h ∈ c.held.items, h.channel = channel → h.id.toNat + 1 < 2 ^ 32) :
    (c.receivers channel).expected.toNat ≤ ((flushOrdered channel fuel c).1.receivers channel).expected.toNat ∧
      ((flushOrdered channel fuel c).1.receivers channel).expected.toNat ≤
        (c.receivers channel).expected.toNat + fuel := by
  induction fuel generalizing c with
  | zero => exact ⟨le_rfl, le_rfl⟩
  | succ fuel ih =>
    rw [flushOrdered]
    cases hnext : c.nextHeld channel with
    | none => exact ⟨le_rfl, by dsimp only; omega⟩
    | some entry =>
      obtain ⟨hkey, before, after, hitems, herase⟩ := nextHeld_split hnext
      have hchan : entry.channel = channel := congrArg MessageKey.channel hkey
      have hid : entry.id = (c.receivers channel).expected := congrArg MessageKey.id hkey
      have hsmall := hheld entry (by rw [hitems]; simp) hchan
      have hstep : ((c.takeHeld channel entry).receivers channel).expected.toNat =
          (c.receivers channel).expected.toNat + 1 := by
        have hnow : ((c.takeHeld channel entry).receivers channel).expected = entry.id.next := by
          simp [takeHeld, Channels.setReceiver]
        rw [hnow, ← hid, MessageId.next, UInt32.toNat_add]
        exact Nat.mod_eq_of_lt hsmall
      obtain ⟨hle, hge⟩ := ih (c := c.takeHeld channel entry) (fun h hh => hheld h (by
        have hh : h ∈ before ++ after := by rw [← herase]; exact hh
        rw [hitems]
        simp only [List.mem_append, List.mem_cons] at hh ⊢
        tauto))
      dsimp only
      omega

theorem flushOrdered_held (channel : Nat) (fuel : Nat) (c : Channels) :
    (flushOrdered channel fuel c).1.held.items ⊆ c.held.items := by
  induction fuel generalizing c with
  | zero => exact fun _ h => h
  | succ fuel ih =>
    rw [flushOrdered]
    split
    · exact fun _ h => h
    · exact fun h hh => List.mem_of_mem_eraseP (ih _ hh)

/-- What is held after a message is what was held, and the message. -/
theorem dispatch_held (c : Channels) (channel : Nat) (kind : ChannelKind) (id : MessageId) (payload : List UInt8) :
    ∀ h ∈ (c.dispatch channel kind id payload).1.held.items,
      h ∈ c.held.items ∨ kind.needsId = true ∧ h.channel = channel ∧ h.id = id := by
  have hneeds : (c.classify channel kind id).2 = .hold → kind.needsId = true := by
    cases kind <;> simp [classify, ChannelKind.needsId]
  have hclass : (c.classify channel kind id).1.held = c.held := by
    cases kind with
    | unreliable => rfl
    | unreliableSequenced => simp only [classify]; split <;> rfl
    | reliableUnordered => rfl
    | reliableOrdered =>
      simp only [classify]
      split
      · rfl
      · split
        · rfl
        · split <;> rfl
  intro h hh
  rw [dispatch] at hh
  split at hh
  next c' heq =>
    rw [heq] at hclass
    rw [hclass] at hh
    exact .inl hh
  next c' heq =>
    rw [heq] at hclass
    split at hh
    · refine .inl ?_
      rw [← hclass]
      exact flushOrdered_held _ _ _ hh
    · rw [hclass] at hh
      exact .inl hh
  next c' heq =>
    rw [heq] at hclass
    split at hh
    · rw [hclass] at hh
      exact .inl hh
    next hfull =>
      split at hh
      · rw [hclass] at hh
        exact .inl hh
      next arena bytes _ =>
        obtain ⟨hitems, -⟩ := FixedVec.push_of_not_full (by simpa using hfull) (⟨channel, id, bytes⟩ : Held)
        rw [hitems, hclass] at hh
        rcases List.mem_append.1 hh with hh | hh
        · exact .inl hh
        · rw [List.mem_singleton] at hh
          subst hh
          exact .inr ⟨hneeds (by rw [heq]), rfl, rfl⟩

/-! ### References -/

/-- The id is within reach of what the channel resolves ids against. -/
def Near (c : Channels) (channel : Nat) (id : MessageId) : Prop :=
  ∀ kind, c.kind channel = some kind → kind.needsId = true →
    id.toNat ≤ (c.reference channel kind).toNat + 32767 ∧ (c.reference channel kind).toNat ≤ id.toNat + 32767

/-- A message takes its channel's reference on, and not far past itself: only
what was held behind it. -/
theorem dispatch_reference {c : Channels} {m : Message} {kind : ChannelKind} (hkind : c.kind m.channel = some kind)
    (hneeds : kind.needsId = true) (hnear : c.Near m.channel m.id) (hstarted : c.Started)
    (hid : m.id.toNat + 1 < 2 ^ 32)
    (hheld : ∀ h ∈ c.held.items, h.channel = m.channel → h.id.toNat + 1 < 2 ^ 32) :
    (c.reference m.channel kind).toNat ≤
        ((c.dispatch m.channel kind m.id m.payload).1.reference m.channel kind).toNat ∧
      ((c.dispatch m.channel kind m.id m.payload).1.reference m.channel kind = c.reference m.channel kind ∨
        ((c.dispatch m.channel kind m.id m.payload).1.reference m.channel kind).toNat ≤ m.id.toNat + 65) := by
  obtain ⟨hahead, hbehind⟩ := hnear kind hkind hneeds
  have hself : ∀ state, ((c.setReceiver m.channel state).receivers m.channel) = state :=
    fun state => Function.update_self ..
  cases kind with
  | unreliable => cases hneeds
  | unreliableSequenced =>
    simp only [reference] at hahead hbehind ⊢
    rw [dispatch_sequenced]
    split
    · exact ⟨le_rfl, .inl rfl⟩
    next hnew =>
      rw [MessageId.distanceFrom_eq (by omega) (by omega)] at hnew
      rw [hself]
      refine ⟨?_, .inr (Nat.le_add_right _ _)⟩
      cases hfresh : (c.receivers m.channel).hasNewest with
      | false => rw [(hstarted m.channel).newest_eq hfresh]; exact Nat.zero_le _
      | true => dsimp only; simp only [hfresh, true_and] at hnew; omega
  | reliableUnordered =>
    simp only [reference] at hahead hbehind ⊢
    rw [dispatch_unordered, hself]
    obtain ⟨hle, hcases⟩ := ReceiverState.acceptUnordered_newest (hstarted m.channel) m.id (by omega)
      (by omega)
    refine ⟨hle, hcases.imp id fun heq => ?_⟩
    rw [heq]
    omega
  | reliableOrdered =>
    simp only [reference] at hahead hbehind ⊢
    have hstep := dispatch_orderedStep c (m := m) (by omega) (by omega)
    generalize c.dispatch m.channel .reliableOrdered m.id m.payload = r at hstep
    cases hstep with
    | turn heq =>
      have hnow : ((c.advanceTo m c.held c.recvArena).receivers m.channel).expected.toNat = m.id.toNat + 1 := by
        rw [advanceTo, hself, MessageId.next, UInt32.toNat_add]
        exact Nat.mod_eq_of_lt hid
      obtain ⟨hle, hge⟩ := flushOrdered_expected m.channel c.held.items.length
        (c := c.advanceTo m c.held c.recvArena) hheld
      have hroom : c.held.items.length ≤ 64 := c.held.le
      rw [← heq]
      dsimp only
      omega
    | late | again | dropped | held => exact ⟨le_rfl, .inl rfl⟩

/-! ### Messages still to come -/

/-- A receiver that can resolve every message of `ms`, read one after another. -/
structure Awaits (c : Channels) (ms : List Message) : Prop where
  started : c.Started
  near : ∀ m ∈ ms, c.Near m.channel m.id
  rising : ms.Pairwise fun m m' => m.channel = m'.channel → m.id.toNat < m'.id.toNat
  /-- No id it comes to expect passes the counter's end. -/
  counts : ∀ m ∈ ms, ∀ h ∈ c.held.items, h.channel = m.channel → h.id.toNat + 1 < 2 ^ 32

theorem resolveId_near {c : Channels} {m : Message} {kind : ChannelKind} (hnear : c.Near m.channel m.id)
    (hkind : c.kind m.channel = some kind) :
    ∃ id, c.resolveId m.channel kind m.id.toWire = some id ∧ (kind.needsId = true → id = m.id) := by
  cases hneeds : kind.needsId with
  | false => exact ⟨.first, by simp [resolveId, hneeds], by simp⟩
  | true =>
    obtain ⟨hahead, hbehind⟩ := hnear kind hkind hneeds
    refine ⟨m.id, ?_, fun _ => rfl⟩
    rw [resolveId, if_pos hneeds]
    exact MessageId.fromWire_toWire hahead (by omega)

theorem Awaits.dispatch {c : Channels} {m : Message} {ms : List Message} {kind : ChannelKind} {id : MessageId}
    (h : c.Awaits (m :: ms)) (hkind : c.kind m.channel = some kind) (hid : kind.needsId = true → id = m.id) :
    (c.dispatch m.channel kind id m.payload).1.Awaits ms := by
  obtain ⟨hfirst, hrest⟩ := List.pairwise_cons.1 h.rising
  have hset := dispatch_set c m.channel kind id m.payload
  -- what is held is what was, or this message, which a later one of the channel is past
  have hcounts : ∀ m' ∈ ms, ∀ x ∈ (c.dispatch m.channel kind id m.payload).1.held.items, x.channel = m'.channel →
      x.id.toNat + 1 < 2 ^ 32 := by
    intro m' hm' x hx hchan
    have hlt := m'.id.toNat_lt
    rcases dispatch_held c m.channel kind id m.payload x hx with hx | ⟨hneeds, hxc, hxi⟩
    · exact h.counts m' (by simp [hm']) x hx hchan
    · have hlater := hfirst m' hm' (hxc.symm.trans hchan)
      rw [hxi, hid hneeds]
      omega
  refine ⟨h.started.dispatch m.channel kind id m.payload, fun m' hm' kind' hkind' hneeds' => ?_, hrest, hcounts⟩
  have hkind' : c.kind m'.channel = some kind' := by rwa [Channels.kind, hset] at hkind'
  obtain ⟨hahead, hbehind⟩ := h.near m' (by simp [hm']) kind' hkind' hneeds'
  by_cases hchan : m'.channel = m.channel
  · rw [hchan] at hkind' hahead hbehind ⊢
    obtain rfl : kind = kind' := Option.some.inj (hkind.symm.trans hkind')
    obtain rfl := hid hneeds'
    have hlater := hfirst m' hm' hchan.symm
    have hlt := m'.id.toNat_lt
    obtain ⟨hle, hcases⟩ := dispatch_reference hkind hneeds' (h.near m (by simp)) h.started (by omega)
      (h.counts m (by simp))
    rcases hcases with heq | hnear
    · rw [heq]
      exact ⟨hahead, hbehind⟩
    · omega
  · have hother := (dispatch_own c m.channel kind id m.payload).1 m'.channel hchan
    have href : (c.dispatch m.channel kind id m.payload).1.reference m'.channel kind' =
        c.reference m'.channel kind' := by
      cases kind' <;> simp only [reference, hother]
    rw [href]
    exact ⟨hahead, hbehind⟩

end Channels

/-- A message as its frame is read. -/
def Message.frame (set : ChannelSet) (m : Message) : MessageFrame :=
  ⟨m.channel, if ((set.kind m.channel).getD .unreliable).needsId then some m.id else none, m.payload⟩

theorem Message.frame_eq {set : ChannelSet} {m : Message} {kind : ChannelKind} {id : MessageId}
    (hkind : set.kind m.channel = some kind) (hid : kind.needsId = true → id = m.id) :
    m.frame set = ⟨m.channel, if kind.needsId then some id else none, m.payload⟩ := by
  rw [frame, hkind, Option.getD_some]
  split
  next hneeds => rw [hid hneeds]
  · rfl

namespace Connection

section

variable {R : Type} [Role R] [FrameReader R]

open BitReader in
/-- A message's frame is read under whatever id its bits resolve to. -/
theorem message_parses (c : Connection R) (p : Nat) {m : Message} {kind : ChannelKind} {id : MessageId}
    (hkind : c.channels.kind m.channel = some kind) (hlen : m.payload.length ≤ maxMessage)
    (hresolve : c.channels.resolveId m.channel kind m.id.toWire = some id) :
    Parses p c.readFrame (frameFields p kind m)
      (some (.message ⟨m.channel, if kind.needsId then some id else none, m.payload⟩)) := by
  refine (Channels.kindRead_parses p .message).bind ?_
  exact (Channels.readFrame_parses (p + 3) hkind hlen hresolve).map fun f => some (Frame.message f)

/-- The next message of a body: its id resolves to none and ends the reading, or
it is seen and dispatched, and the rest is read from there. -/
theorem seen_message (now : Timestamp) (fuel : Nat) {m : Message} {ms : List Message} {c : Connection R} {r : BitReader}
    {tail : List (Nat × Nat)} (hwired : Channels.Wired c.channels.set m)
    (hsees : r.Sees (Channels.framesFields c.channels.set r.bitsRead (m :: ms) ++ tail))
    (hend : Channels.EndsPacket r.buffer (r.bitsRead + width (Channels.framesFields c.channels.set r.bitsRead (m :: ms)))
      tail) :
    ∃ kind, c.channels.kind m.channel = some kind ∧
      ((c.channels.resolveId m.channel kind m.id.toWire = none ∧ (seen now (fuel + 1) c r).1 = []) ∨
        ∃ id frame r₁ c₁, c.channels.resolveId m.channel kind m.id.toWire = some id ∧
          frame = ⟨m.channel, if kind.needsId then some id else none, m.payload⟩ ∧
          c.handleFrame now (.message frame) = (c₁, (c.channels.dispatch m.channel kind id m.payload).2) ∧
          c₁.channels = (c.channels.dispatch m.channel kind id m.payload).1 ∧ c₁.channels.set = c.channels.set ∧
          r₁.Sees (Channels.framesFields c₁.channels.set r₁.bitsRead ms ++ tail) ∧
          Channels.EndsPacket r₁.buffer (r₁.bitsRead + width (Channels.framesFields c₁.channels.set r₁.bitsRead ms)) tail ∧
          seen now (fuel + 1) c r = (.message frame :: (seen now fuel c₁ r₁).1, (seen now fuel c₁ r₁).2)) := by
  obtain ⟨hsome, hlen⟩ := hwired
  obtain ⟨kind, hkind⟩ := Option.isSome_iff_exists.1 hsome
  have hgetD : (c.channels.set.kind m.channel).getD .unreliable = kind := by rw [hkind]; rfl
  simp only [Channels.framesFields, hgetD, List.append_assoc] at hsees hend
  refine ⟨kind, hkind, ?_⟩
  cases hresolve : c.channels.resolveId m.channel kind m.id.toWire with
  | none =>
    have hkinded : r.Sees ([(3, FrameKind.message.bits)] ++ (bodyFields (r.bitsRead + 3) kind m ++
        (Channels.framesFields c.channels.set (r.bitsRead + width (frameFields r.bitsRead kind m)) ms ++ tail))) :=
      hsees
    obtain ⟨r₁, hrun₁, hsees₁, hpos₁, -⟩ := Channels.kindRead_parses r.bitsRead .message r _ hkinded rfl
    have hpos₁ : r₁.bitsRead = r.bitsRead + 3 := hpos₁
    rw [← hpos₁] at hsees₁
    obtain ⟨e, r₂, hrun₂⟩ := Channels.readFrame_error hkind hresolve hsees₁
    refine .inl ⟨rfl, ?_⟩
    rw [seen]
    split
    · rfl
    · rw [readFrame, EStateM.run_bind, hrun₁]
      dsimp only
      rw [EStateM.run_bind, hrun₂]
  | some id =>
    have hwide : 3 ≤ width (frameFields r.bitsRead kind m) := by simp [frameFields]
    obtain ⟨r₁, hsees₁, hpos₁, hbuf₁, hseen₁⟩ := seen_next now fuel (message_parses c r.bitsRead hkind hlen hresolve)
      hwide hsees
    generalize hframe : (⟨m.channel, if kind.needsId then some id else none, m.payload⟩ : MessageFrame) = frame
      at hseen₁
    have hact : c.handleFrame now (.message frame) =
        ({ c with channels := (c.channels.dispatch m.channel kind id m.payload).1 },
          (c.channels.dispatch m.channel kind id m.payload).2) := by
      rw [← hframe, handleFrame, Channels.act_eq hkind hresolve]
    have hset : (c.channels.dispatch m.channel kind id m.payload).1.set = c.channels.set := Channels.dispatch_set ..
    rw [hact] at hseen₁
    rw [← hpos₁, ← hset] at hsees₁
    rw [width_append, ← Nat.add_assoc, ← hpos₁, ← hbuf₁, ← hset] at hend
    exact .inr ⟨id, frame, r₁, _, rfl, hframe.symm, hact, rfl, hset, hsees₁, hend, hseen₁⟩

theorem seen_messages (now : Timestamp) (fuel : Nat) {ms : List Message} {c : Connection R} {r : BitReader}
    {tail : List (Nat × Nat)} (hwired : ∀ m ∈ ms, Channels.Wired c.channels.set m) (hawaits : c.channels.Awaits ms)
    (hsees : r.Sees (Channels.framesFields c.channels.set r.bitsRead ms ++ tail))
    (hend : Channels.EndsPacket r.buffer (r.bitsRead + width (Channels.framesFields c.channels.set r.bitsRead ms))
      tail) :
    seen now (ms.length + (fuel + 1)) c r = (ms.map fun m => .message (m.frame c.channels.set), none) := by
  induction ms generalizing c r with
  | nil =>
    rw [List.length_nil, Nat.zero_add]
    exact seen_end now fuel hsees (by simpa [Channels.framesFields] using hend)
  | cons m ms ih =>
    obtain ⟨kind, hkind, hnext⟩ := seen_message now (ms.length + (fuel + 1)) (hwired m (by simp)) hsees hend
    obtain ⟨id, hresolve, hid⟩ := Channels.resolveId_near (hawaits.near m (by simp)) hkind
    rcases hnext with ⟨hnone, -⟩ | ⟨id', frame, r₁, c₁, hresolve', rfl, -, hc₁, hset, hsees₁, hend₁, hseen⟩
    · rw [hresolve] at hnone
      cases hnone
    · obtain rfl : id = id' := Option.some.inj (hresolve.symm.trans hresolve')
      rw [List.length_cons, Nat.add_right_comm, hseen,
        ih (fun m' hm' => by rw [hset]; exact hwired m' (by simp [hm'])) (by rw [hc₁]; exact hawaits.dispatch hkind hid)
          hsees₁ hend₁, ← Message.frame_eq hkind hid, hset]
      rfl

/-- Where messages were written only messages are seen, whatever their ids
resolve to and wherever one that names none ends the reading. -/
theorem seen_messages_only (now : Timestamp) (fuel : Nat) {ms : List Message} {c : Connection R} {r : BitReader}
    {tail : List (Nat × Nat)} (hwired : ∀ m ∈ ms, Channels.Wired c.channels.set m)
    (hsees : r.Sees (Channels.framesFields c.channels.set r.bitsRead ms ++ tail))
    (hend : Channels.EndsPacket r.buffer (r.bitsRead + width (Channels.framesFields c.channels.set r.bitsRead ms))
      tail) (f : ControlFrame) :
    .control f ∉ (seen now (ms.length + (fuel + 1)) c r).1 := by
  induction ms generalizing c r with
  | nil =>
    rw [List.length_nil, Nat.zero_add, seen_end now fuel hsees (by simpa [Channels.framesFields] using hend)]
    exact List.not_mem_nil
  | cons m ms ih =>
    obtain ⟨kind, -, ⟨-, hseen⟩ | ⟨id, frame, r₁, c₁, -, -, -, -, hset, hsees₁, hend₁, hseen⟩⟩ :=
      seen_message now (ms.length + (fuel + 1)) (hwired m (by simp)) hsees hend
    · rw [List.length_cons, Nat.add_right_comm, hseen]
      exact List.not_mem_nil
    · rw [List.length_cons, Nat.add_right_comm, hseen, List.mem_cons]
      rintro (heq | hmem)
      · cases heq
      · exact ih (fun m' hm' => by rw [hset]; exact hwired m' (by simp [hm'])) hsees₁ hend₁ hmem

def bodySeen (c : Connection R) (now : Timestamp) (body : List UInt8) : List Frame :=
  (seen now (8 * body.length + 1) c (.new body)).1

/-- A body is seen as its control frames, and then what is made of the rest by
a reader at the first message. -/
theorem seen_body (now : Timestamp) {c : Connection R} {fs : List ControlFrame} {ms : List Message} {w : BitWriter}
    (hw : w.Holds (controlFields 0 fs ++ Channels.framesFields c.channels.set (width (controlFields 0 fs)) ms))
    (hfs : ∀ f ∈ fs, FrameReader.Receivable R f) :
    ∃ (c' : Connection R) (r : BitReader) (fuel : Nat) (tail : List (Nat × Nat)), c'.channels = c.channels ∧
      r.Sees (Channels.framesFields c'.channels.set r.bitsRead ms ++ tail) ∧
      Channels.EndsPacket r.buffer (r.bitsRead + width (Channels.framesFields c'.channels.set r.bitsRead ms)) tail ∧
      seen now (8 * (Channels.packetBytes w).length + 1) c (.new (Channels.packetBytes w)) =
        (fs.map .control ++ (seen now (ms.length + (fuel + 1)) c' r).1,
          (seen now (ms.length + (fuel + 1)) c' r).2) := by
  obtain ⟨tail, hsees, hend⟩ := Channels.packetBytes_sees hw
  rw [List.append_assoc] at hsees
  have hcontrol := length_le_width_controlFields 0 fs
  have hmessages := Channels.length_le_width_framesFields c.channels.set (width (controlFields 0 fs)) ms
  have hfits := hsees.fits
  simp only [width_append] at hfits
  -- every frame takes a bit at least, so there are turns enough
  obtain ⟨fuel, hfuel⟩ : ∃ fuel, 8 * (Channels.packetBytes w).length + 1 = fs.length + (ms.length + (fuel + 1)) := by
    refine ⟨8 * (Channels.packetBytes w).length - fs.length - ms.length, ?_⟩
    have hbuf : (BitReader.new (Channels.packetBytes w)).buffer = Channels.packetBytes w := rfl
    rw [hbuf] at hfits
    omega
  obtain ⟨c', r', hchannels, hsees', hpos', hbuf', hseen'⟩ :=
    seen_controls now (ms.length + (fuel + 1)) (c := c) (r := .new (Channels.packetBytes w)) hfs hsees
  have hstart : (BitReader.new (Channels.packetBytes w)).bitsRead = 0 := rfl
  rw [hstart, Nat.zero_add] at hpos'
  refine ⟨c', r', fuel, tail, hchannels, by rwa [hchannels, hpos'], ?_, by rw [hfuel, hseen']⟩
  rw [hchannels, hpos', hbuf']
  rwa [width_append] at hend

/-- **A body is read as it was written**: control frames the side may receive,
then messages it awaits. -/
theorem readBody_agrees (now : Timestamp) {c : Connection R} {fs : List ControlFrame} {ms : List Message}
    {w : BitWriter}
    (hw : w.Holds (controlFields 0 fs ++ Channels.framesFields c.channels.set (width (controlFields 0 fs)) ms))
    (hfs : ∀ f ∈ fs, FrameReader.Receivable R f) (hwired : ∀ m ∈ ms, Channels.Wired c.channels.set m)
    (hawaits : c.channels.Awaits ms) :
    c.bodySeen now (Channels.packetBytes w) =
        fs.map .control ++ ms.map (fun m => .message (m.frame c.channels.set)) ∧
      (c.readBody now (Channels.packetBytes w)).2.2 = .ok (!fs.isEmpty || !ms.isEmpty) := by
  obtain ⟨c', r, fuel, tail, hchannels, hsees, hend, hseen⟩ := seen_body now hw hfs
  rw [seen_messages now fuel (by rwa [hchannels]) (by rwa [hchannels]) hsees hend, hchannels] at hseen
  refine ⟨by rw [bodySeen, hseen], ?_⟩
  rw [readBody, readFrames_seen, hseen]
  cases fs <;> cases ms <;> rfl

/-- Whatever the messages' ids resolve to, the control frames seen of a body
are ones written into it. -/
theorem bodySeen_controls (now : Timestamp) {c : Connection R} {fs : List ControlFrame} {ms : List Message}
    {w : BitWriter}
    (hw : w.Holds (controlFields 0 fs ++ Channels.framesFields c.channels.set (width (controlFields 0 fs)) ms))
    (hfs : ∀ f ∈ fs, FrameReader.Receivable R f) (hwired : ∀ m ∈ ms, Channels.Wired c.channels.set m)
    {f : ControlFrame} (hf : .control f ∈ c.bodySeen now (Channels.packetBytes w)) : f ∈ fs := by
  obtain ⟨c', r, fuel, tail, hchannels, hsees, hend, hseen⟩ := seen_body now hw hfs
  rw [bodySeen, hseen, List.mem_append, List.mem_map] at hf
  rcases hf with ⟨f', hf', heq⟩ | hf
  · cases heq
    exact hf'
  · exact (seen_messages_only now fuel (by rwa [hchannels]) hsees hend f hf).elim

end

end Connection

end HexNet
