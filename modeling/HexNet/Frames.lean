/-
Message frames on the wire: what `write_frames` puts in a packet, as fields,
and what `read_message` makes of them.

* `writeFrame_emits`: a frame's fields, from wherever in a byte it starts.
* `readMessage_parses`: reading them is handing the message to the channel
  (`receive`), its id resolved from the sixteen bits it travelled as.
* `readFrames_eq`: a whole packet is read as its messages one after another.
-/
import HexNet.BitsFacts
import HexNet.Channel

namespace HexNet

open BitFields

/-! ## A frame's fields -/

/-- The fields after the frame's kind, up to the payload. -/
def headFields (kind : ChannelKind) (m : Message) : List (Nat × Nat) :=
  [(3, m.channel)] ++ ((if kind.needsId then [(16, m.id.toWire.toNat)] else []) ++ [(11, m.payload.length)])

/-- A frame without its kind, its kind ending at bit `p`. -/
def bodyFields (p : Nat) (kind : ChannelKind) (m : Message) : List (Nat × Nat) :=
  headFields kind m ++ ([((8 - (p + width (headFields kind m)) % 8) % 8, 0)] ++ bytes m.payload)

/-- A whole frame starting at bit `p`. -/
def frameFields (p : Nat) (kind : ChannelKind) (m : Message) : List (Nat × Nat) :=
  (3, 3) :: bodyFields (p + 3) kind m

/-- A message frame as it is read, its id resolved where the channel's kind
carries one. -/
structure MessageFrame where
  channel : Nat
  id : Option MessageId
  payload : List UInt8
  deriving DecidableEq

namespace Channels

open BitWriter in
theorem writeBytes_chunks_emits {p : Nat} (hp : p % 8 = 0) (chunks : List (List UInt8)) :
    Emits p (chunks.forM writeBytes) (bytes chunks.flatten) := by
  induction chunks generalizing p with
  | nil => exact Emits.pure p
  | cons c chunks ih =>
    rw [List.flatten_cons, bytes_append]
    show Emits p (do writeBytes c; chunks.forM writeBytes) _
    refine (writeBytes_emits hp c).bind (ih ?_)
    rw [width_bytes]
    omega

open BitWriter in
theorem writeFrame_emits (p : Nat) (kind : ChannelKind) {pending : Pending} {arena : Arena arenaBlocks}
    {payload : List UInt8} (hchannel : pending.channel < maxChannels) (hcount : pending.bytes.count = payload.length)
    (hlen : payload.length ≤ maxMessage) (hchunks : (arena.chunks pending.bytes).flatten = payload) :
    Emits p (writeFrame kind pending arena) (frameFields p kind ⟨pending.channel, pending.id, payload⟩) := by
  have hkind : Emits p FrameKind.message.write [(3, 3)] := writeBits_emits p 3 (by decide)
  have hid : ∀ q, Emits q (writeId kind pending.id) (if kind.needsId then [(16, pending.id.toWire.toNat)] else []) := by
    intro q
    unfold writeId
    split
    · exact writeBits_emits q _ (by decide)
    · exact Emits.pure q
  have hrange : ∀ q, Emits q (writeRange pending.channel 0 (maxChannels - 1)) [(3, pending.channel)] :=
    fun q => writeRange_emits q (Nat.zero_le _) (by omega) (by decide)
  have hlength : ∀ q, Emits q (writeRange pending.bytes.len 0 maxMessage) [(11, payload.length)] := by
    intro q
    rw [ByteRef.len, hcount]
    exact writeRange_emits q (Nat.zero_le _) hlen (by decide)
  set ids := if kind.needsId then [(16, pending.id.toWire.toNat)] else [] with hids
  have hall := hkind.bind ((hrange _).bind ((hid _).bind ((hlength _).bind ((align_emits _).bind
    (writeBytes_chunks_emits (by simp only [width_cons, width_nil]; omega) (arena.chunks pending.bytes))))))
  have hfields : frameFields p kind ⟨pending.channel, pending.id, payload⟩ =
      [(3, 3)] ++ ([(3, pending.channel)] ++ (ids ++ ([(11, payload.length)] ++
        ([((8 - (p + width [(3, 3)] + width [(3, pending.channel)] + width ids + width [(11, payload.length)]) % 8) % 8,
          0)] ++ bytes payload)))) := by
    simp only [frameFields, bodyFields, headFields, ← hids, width_append, width_cons, width_nil, List.append_assoc,
      Nat.add_assoc, Nat.add_zero, List.cons_append, List.nil_append]
  rw [hfields]
  rw [hchunks] at hall
  exact hall

/-! ## Reading a frame -/

/-- The reading half of `read_message`. -/
def readFrame (c : Channels) : Read MessageFrame := do
  let channel ← BitReader.readRange 0 (maxChannels - 1)
  match c.kind channel with
  | none => throw .outOfRange
  | some kind =>
    let wire ← readId kind
    match c.resolveId channel kind wire with
    | none => throw .outOfRange
    | some id =>
      let len ← BitReader.readRange 0 maxMessage
      BitReader.align
      let payload ← BitReader.peek len
      BitReader.skipBytes len
      return ⟨channel, if kind.needsId then some id else none, payload⟩

/-- What `read_message` does with a frame. -/
def act (c : Channels) (f : MessageFrame) : Channels × List Message :=
  c.dispatch f.channel ((c.kind f.channel).getD .unreliable) (f.id.getD .first) f.payload

theorem act_eq {c : Channels} {channel : Nat} {kind : ChannelKind} {wire : WireSequence} {id : MessageId}
    (hkind : c.kind channel = some kind) (hid : c.resolveId channel kind wire = some id) (payload : List UInt8) :
    c.act ⟨channel, if kind.needsId then some id else none, payload⟩ = c.dispatch channel kind id payload := by
  simp only [act, hkind, Option.getD_some]
  cases hneeds : kind.needsId with
  | true => rfl
  | false =>
    obtain rfl : .first = id := by simpa [resolveId, hneeds] using hid
    rfl

/-- Reading a message is reading its frame and acting on it. -/
theorem readMessage_eq (c : Channels) : c.readMessage = do return c.act (← c.readFrame) := by
  simp only [readMessage, readFrame, bind_assoc]
  refine bind_congr fun channel => ?_
  cases hkind : c.kind channel with
  | none => rfl
  | some kind =>
    simp only [bind_assoc]
    refine bind_congr fun wire => ?_
    cases hid : c.resolveId channel kind wire with
    | none => rfl
    | some id => simp only [bind_assoc, pure_bind, act_eq hkind hid]

/-- What arrives of a message: its sixteen id bits resolved, and the message
handed to its channel; `none` where it names no channel or no id. -/
def receive (c : Channels) (m : Message) : Option (Channels × List Message) :=
  (c.kind m.channel).bind fun kind =>
    (c.resolveId m.channel kind m.id.toWire).map fun id => c.dispatch m.channel kind id m.payload

theorem kind_lt {set : ChannelSet} {channel : Nat} {kind : ChannelKind} (h : set.kind channel = some kind) :
    channel < maxChannels := by
  have := (List.getElem?_eq_some_iff.1 h).1
  have := set.le
  omega

open BitReader in
theorem readId_parses (p : Nat) (kind : ChannelKind) (id : MessageId) :
    Parses p (readId kind) (if kind.needsId then [(16, id.toWire.toNat)] else [])
      (if kind.needsId then id.toWire else 0) := by
  unfold readId
  split
  · have hread := readBits_parses p (show messageIdBits ≤ 32 by decide) (show id.toWire.toNat < 2 ^ messageIdBits from
      id.toWire.toNat_lt)
    have hpure := Parses.pure (p + width [(16, id.toWire.toNat)]) (UInt16.ofNat id.toWire.toNat)
    have hall := hread.bind (k := fun wire => pure (UInt16.ofNat wire)) hpure
    rw [UInt16.ofNat_toNat, List.append_nil] at hall
    exact hall
  · exact Parses.pure p 0

theorem resolveId_wire (c : Channels) (channel : Nat) (kind : ChannelKind) (wire : WireSequence) :
    c.resolveId channel kind (if kind.needsId then wire else 0) = c.resolveId channel kind wire := by
  unfold resolveId
  split <;> rfl

open BitReader in
/-- A frame is read as the message it carries, under the id its bits resolve to. -/
theorem readFrame_parses {c : Channels} {m : Message} {kind : ChannelKind} {id : MessageId} (p : Nat)
    (hkind : c.kind m.channel = some kind) (hlen : m.payload.length ≤ maxMessage)
    (hid : c.resolveId m.channel kind m.id.toWire = some id) :
    Parses p c.readFrame (bodyFields p kind m) ⟨m.channel, if kind.needsId then some id else none, m.payload⟩ := by
  have hchannel := kind_lt hkind
  have hfields : bodyFields p kind m = [(3, m.channel)] ++ ((if kind.needsId then [(16, m.id.toWire.toNat)] else []) ++
      ([(11, m.payload.length)] ++ ([((8 - (p + width (headFields kind m)) % 8) % 8, 0)] ++ bytes m.payload))) := by
    simp only [bodyFields, headFields, List.append_assoc]
  rw [hfields]
  refine (readRange_parses p (Nat.zero_le _) (show m.channel ≤ maxChannels - 1 by omega) (by decide)).bind ?_
  rw [hkind]
  refine (readId_parses _ kind m.id).bind ?_
  rw [resolveId_wire, hid]
  dsimp only
  refine (readRange_parses _ (Nat.zero_le _) hlen (by decide)).bind ?_
  have hpos : p + width [(bitsRequired (maxChannels - 1 - 0), m.channel - 0)] +
      width (if kind.needsId then [(16, m.id.toWire.toNat)] else []) +
      width [(bitsRequired (maxMessage - 0), m.payload.length - 0)] = p + width (headFields kind m) := by
    simp only [headFields, width_append, Nat.add_assoc]
    rfl
  rw [hpos]
  refine (align_parses _).bind ?_
  exact peek_skip_parses (by simp only [width_cons, width_nil]; omega) m.payload _

/-- Reading a frame hands its message to the channel. -/
theorem readMessage_parses {c : Channels} {m : Message} {kind : ChannelKind} {v : Channels × List Message} (p : Nat)
    (hkind : c.kind m.channel = some kind) (hlen : m.payload.length ≤ maxMessage) (hrecv : c.receive m = some v) :
    BitReader.Parses p c.readMessage (bodyFields p kind m) v := by
  obtain ⟨id, hid, rfl⟩ : ∃ id, c.resolveId m.channel kind m.id.toWire = some id ∧
      c.dispatch m.channel kind id m.payload = v := by
    simpa [receive, hkind] using hrecv
  rw [readMessage_eq, ← act_eq hkind hid]
  exact (readFrame_parses p hkind hlen hid).map c.act

theorem readFrame_error {c : Channels} {m : Message} {kind : ChannelKind} {r : BitReader} {gs : List (Nat × Nat)}
    (hkind : c.kind m.channel = some kind) (hid : c.resolveId m.channel kind m.id.toWire = none)
    (hsees : r.Sees (bodyFields r.bitsRead kind m ++ gs)) : ∃ e r', c.readFrame.run r = .error e r' := by
  have hchannel := kind_lt hkind
  rw [bodyFields, headFields, List.append_assoc, List.append_assoc, List.append_assoc] at hsees
  obtain ⟨r₁, hrun₁, hsees₁, hpos₁, -⟩ := BitReader.readRange_parses r.bitsRead (Nat.zero_le _)
    (show m.channel ≤ maxChannels - 1 by omega) (by decide) r _ hsees rfl
  obtain ⟨r₂, hrun₂, -⟩ := readId_parses _ kind m.id r₁ _ hsees₁ rfl
  refine ⟨.outOfRange, r₂, ?_⟩
  rw [readFrame, EStateM.run_bind, hrun₁]
  dsimp only
  rw [hkind]
  dsimp only
  rw [EStateM.run_bind, hrun₂]
  dsimp only
  rw [resolveId_wire, hid]
  rfl

/-- A message naming no id is an error, and the packet's last. -/
theorem readMessage_error {c : Channels} {m : Message} {kind : ChannelKind} {r : BitReader} {gs : List (Nat × Nat)}
    (hkind : c.kind m.channel = some kind) (hrecv : c.receive m = none)
    (hsees : r.Sees (bodyFields r.bitsRead kind m ++ gs)) : ∃ e r', c.readMessage.run r = .error e r' := by
  have hid : c.resolveId m.channel kind m.id.toWire = none := by simpa [receive, hkind] using hrecv
  obtain ⟨e, r', hrun⟩ := readFrame_error hkind hid hsees
  refine ⟨e, r', ?_⟩
  rw [readMessage_eq, EStateM.run_bind, hrun]

/-! ## Whole packets -/

/-- The reading loop of a packet of messages (`read_frames`): until padding or
the end. What was read before an error stays done. Every turn reads a kind's
three bits at least. -/
def readFrames : Nat → Channels → BitReader → Channels × List Message × Bool
  | 0, c, _ => (c, [], true)
  | fuel + 1, c, r =>
    if r.bitsRemaining < frameKindBits then (c, [], true)
    else
      match FrameKind.read.run r with
      | .ok .padding _ => (c, [], true)
      | .ok .message r =>
        match c.readMessage.run r with
        | .error _ _ => (c, [], false)
        | .ok v r =>
          let rest := readFrames fuel v.1 r
          (rest.1, v.2 ++ rest.2.1, rest.2.2)
      | _ => (c, [], false)

/-- A packet's messages received one after another, until one is an error. -/
def receiveAll : List Message → Channels → Channels × List Message × Bool
  | [], c => (c, [], true)
  | m :: ms, c =>
    match c.receive m with
    | none => (c, [], false)
    | some v =>
      let rest := receiveAll ms v.1
      (rest.1, v.2 ++ rest.2.1, rest.2.2)

/-- The last of a packet's bytes: padding if there is room, and the flush. -/
def packetBytes (w : BitWriter) : List UInt8 := (writePadding w).finish.1.take (writePadding w).finish.2

/-- A packet's frames, the first starting at bit `p`. -/
def framesFields (set : ChannelSet) : Nat → List Message → List (Nat × Nat)
  | _, [] => []
  | p, m :: ms =>
    let fs := frameFields p ((set.kind m.channel).getD .unreliable) m
    fs ++ framesFields set (p + width fs) ms

theorem framesFields_append (set : ChannelSet) (p : Nat) (ms ns : List Message) :
    framesFields set p (ms ++ ns) =
      framesFields set p ms ++ framesFields set (p + width (framesFields set p ms)) ns := by
  induction ms generalizing p with
  | nil => simp [framesFields]
  | cons m ms ih => simp only [List.cons_append, framesFields, ih, width_append, List.append_assoc, Nat.add_assoc]

/-- A frame is three bits at least. -/
theorem length_le_width_framesFields (set : ChannelSet) (p : Nat) (ms : List Message) :
    ms.length ≤ width (framesFields set p ms) := by
  induction ms generalizing p with
  | nil => exact Nat.zero_le _
  | cons m ms ih =>
    have := ih (p + width (frameFields p ((set.kind m.channel).getD .unreliable) m))
    simp only [framesFields, frameFields, width_append, width_cons, List.length_cons] at this ⊢
    omega

/-- What follows a packet's frames: padding, or too few bits for a kind. -/
def EndsPacket (buffer : List UInt8) (p : Nat) (tail : List (Nat × Nat)) : Prop :=
  (∃ gs, tail = (3, 0) :: gs) ∨ 8 * buffer.length < p + 3

/-- What a message frame may be about. -/
def Wired (set : ChannelSet) (m : Message) : Prop :=
  (set.kind m.channel).isSome ∧ m.payload.length ≤ maxMessage

/-- The half of the channels that sends. -/
def sendSide (c : Channels) : ChannelSet × (Nat → MessageId) × FixedVec Pending maxPending × Arena arenaBlocks :=
  (c.set, c.nextIds, c.pending, c.sendArena)

theorem flushOrdered_sendSide (channel : Nat) (fuel : Nat) (c : Channels) :
    (flushOrdered channel fuel c).1.sendSide = c.sendSide := by
  induction fuel generalizing c with
  | zero => rfl
  | succ fuel ih =>
    rw [flushOrdered]
    split
    · rfl
    · exact ih _

theorem classify_sendSide (c : Channels) (channel : Nat) (kind : ChannelKind) (id : MessageId) :
    (c.classify channel kind id).1.sendSide = c.sendSide := by
  cases kind <;> simp only [classify]
  · split <;> rfl
  · rfl
  · split
    · rfl
    · split
      · rfl
      · split <;> rfl

/-- A message that arrives leaves the sending half as it was. -/
theorem dispatch_sendSide (c : Channels) (channel : Nat) (kind : ChannelKind) (id : MessageId)
    (payload : List UInt8) : (c.dispatch channel kind id payload).1.sendSide = c.sendSide := by
  rw [← classify_sendSide c channel kind id, dispatch]
  split
  next c' h => rw [h]
  next c' h =>
    rw [h]
    split
    · exact flushOrdered_sendSide _ _ _
    · rfl
  next c' h =>
    rw [h]
    split
    · rfl
    · split <;> rfl

theorem dispatch_set (c : Channels) (channel : Nat) (kind : ChannelKind) (id : MessageId) (payload : List UInt8) :
    (c.dispatch channel kind id payload).1.set = c.set :=
  congrArg Prod.fst (dispatch_sendSide c channel kind id payload)

/-- Reading a message is handing it over. -/
theorem readMessage_ok {c : Channels} {r r' : BitReader} {v : Channels × List Message}
    (h : c.readMessage.run r = .ok v r') : ∃ channel kind id payload, v = c.dispatch channel kind id payload := by
  rw [readMessage_eq] at h
  obtain ⟨f, r₁, -, h⟩ := run_bind_ok h
  cases h
  exact ⟨_, _, _, _, rfl⟩

theorem setReceiver_other (c : Channels) {channel ch : Nat} (h : ch ≠ channel) (state : ReceiverState) :
    (c.setReceiver channel state).receivers ch = c.receivers ch := Function.update_of_ne h _ _

theorem classify_other (c : Channels) {channel ch : Nat} (h : ch ≠ channel) (kind : ChannelKind) (id : MessageId) :
    (c.classify channel kind id).1.receivers ch = c.receivers ch := by
  cases kind with
  | unreliable => rfl
  | unreliableSequenced =>
    simp only [classify]
    split
    · rfl
    · exact setReceiver_other c h _
  | reliableUnordered => exact setReceiver_other c h _
  | reliableOrdered =>
    simp only [classify]
    split
    · rfl
    · split
      · exact setReceiver_other c h _
      · split <;> rfl

/-- What each held message keeps as it is taken, a flush keeps. -/
theorem flushOrdered_rule {P : Channels → List Message → Prop} {channel : Nat}
    (htake : ∀ {c : Channels} {out entry}, P c out → c.nextHeld channel = some entry →
      P (c.takeHeld channel entry) (out ++ ((c.recvArena.load entry.bytes maxMessage).map
        fun payload => ⟨channel, entry.id, payload⟩).toList))
    (fuel : Nat) {c : Channels} (out : List Message) (h : P c out) :
    P (flushOrdered channel fuel c).1 (out ++ (flushOrdered channel fuel c).2) := by
  induction fuel generalizing c out with
  | zero => simpa [flushOrdered] using h
  | succ fuel ih =>
    rw [flushOrdered]
    split
    · simpa using h
    next entry hnext =>
      have hrest := ih _ (htake h hnext)
      rwa [List.append_assoc] at hrest

theorem flushOrdered_own (channel : Nat) (fuel : Nat) (c : Channels) :
    (∀ ch, ch ≠ channel → (flushOrdered channel fuel c).1.receivers ch = c.receivers ch) ∧
      ∀ m ∈ (flushOrdered channel fuel c).2, m.channel = channel := by
  refine flushOrdered_rule (P := fun c' out => (∀ ch, ch ≠ channel → c'.receivers ch = c.receivers ch) ∧
    ∀ m ∈ out, m.channel = channel) (fun {c' out entry} h _ => ?_) fuel [] ⟨fun _ _ => rfl, by simp⟩
  refine ⟨fun ch hch => (setReceiver_other c' hch _).trans (h.1 ch hch), fun m hm => ?_⟩
  rcases List.mem_append.1 hm with hm | hm
  · exact h.2 m hm
  · obtain ⟨payload, -, rfl⟩ := Option.map_eq_some_iff.1 (Option.mem_toList.1 hm)
    rfl

/-- A message touches its own channel, and what it makes the receiver hand
over is that channel's. -/
theorem dispatch_own (c : Channels) (channel : Nat) (kind : ChannelKind) (id : MessageId) (payload : List UInt8) :
    (∀ ch, ch ≠ channel → (c.dispatch channel kind id payload).1.receivers ch = c.receivers ch) ∧
      ∀ m ∈ (c.dispatch channel kind id payload).2, m.channel = channel := by
  have hclass := fun ch (hch : ch ≠ channel) => classify_other c hch kind id
  rw [dispatch]
  revert hclass
  generalize c.classify channel kind id = r
  obtain ⟨c', a⟩ := r
  intro hclass
  cases a with
  | discard => exact ⟨hclass, by simp⟩
  | deliver =>
    dsimp only
    split
    · obtain ⟨hrecv, hout⟩ := flushOrdered_own channel c'.held.items.length c'
      refine ⟨fun ch hch => (hrecv ch hch).trans (hclass ch hch), fun m hm => ?_⟩
      rcases List.mem_cons.1 hm with rfl | hm
      · rfl
      · exact hout m hm
    · exact ⟨hclass, by simp⟩
  | hold =>
    dsimp only
    split
    · exact ⟨hclass, by simp⟩
    · split <;> exact ⟨hclass, by simp⟩

theorem dispatch_unordered (c : Channels) (channel : Nat) (id : MessageId) (payload : List UInt8) :
    c.dispatch channel .reliableUnordered id payload =
      (c.setReceiver channel ((c.receivers channel).acceptUnordered id).1,
        if ((c.receivers channel).acceptUnordered id).2 then [⟨channel, id, payload⟩] else []) := by
  have hclass : c.classify channel .reliableUnordered id =
      (c.setReceiver channel ((c.receivers channel).acceptUnordered id).1,
        if ((c.receivers channel).acceptUnordered id).2 then .deliver else .discard) := rfl
  rw [dispatch, hclass]
  cases ((c.receivers channel).acceptUnordered id).2 with
  | false => rfl
  | true => exact if_neg fun hcon => by cases hcon.1

theorem dispatch_sequenced (c : Channels) (channel : Nat) (id : MessageId) (payload : List UInt8) :
    c.dispatch channel .unreliableSequenced id payload =
      if (c.receivers channel).hasNewest ∧ id.distanceFrom (c.receivers channel).newest ≤ 0 then (c, [])
      else
        (c.setReceiver channel { c.receivers channel with newest := id, hasNewest := true },
          [⟨channel, id, payload⟩]) := by
  by_cases hold : (c.receivers channel).hasNewest ∧ id.distanceFrom (c.receivers channel).newest ≤ 0
  · have hclass : c.classify channel .unreliableSequenced id = (c, .discard) := if_pos hold
    rw [dispatch, hclass, if_pos hold]
  · have hclass : c.classify channel .unreliableSequenced id =
        (c.setReceiver channel { c.receivers channel with newest := id, hasNewest := true }, .deliver) := if_neg hold
    rw [dispatch, hclass, if_neg hold]
    exact if_neg fun hcon => by cases hcon.1

theorem receive_set {c : Channels} {m : Message} {v : Channels × List Message} (h : c.receive m = some v) :
    v.1.set = c.set := by
  simp only [receive, Option.bind_eq_some_iff, Option.map_eq_some_iff] at h
  obtain ⟨kind, -, id, -, rfl⟩ := h
  exact dispatch_set _ _ _ _ _

/-- What each message keeps as it is received, a packet keeps: of the messages
received, the channels and what was handed over. -/
theorem receiveAll_rule {P : List Message → Channels → List Message → Prop} (ms : List Message)
    (hreceive : ∀ {got m c out v}, m ∈ ms → P got c out → c.receive m = some v → P (got ++ [m]) v.1 (out ++ v.2))
    {c : Channels} (out : List Message) (h : P [] c out) :
    ∃ got, P got (receiveAll ms c).1 (out ++ (receiveAll ms c).2.1) ∧ ((receiveAll ms c).2.2 = true → got = ms) := by
  induction ms generalizing P c out with
  | nil => exact ⟨[], by simpa [receiveAll] using h, fun _ => rfl⟩
  | cons m ms ih =>
    rw [receiveAll]
    split
    · exact ⟨[], by simpa using h, nofun⟩
    next v hv =>
      obtain ⟨got, hgot, hall⟩ := ih (P := fun got => P (m :: got)) (fun hm => hreceive (List.mem_cons_of_mem _ hm))
        (out ++ v.2) (hreceive (by simp) h hv)
      rw [List.append_assoc] at hgot
      exact ⟨m :: got, hgot, fun hok => by rw [hall hok]⟩

theorem receiveAll_set (ms : List Message) (c : Channels) : (receiveAll ms c).1.set = c.set := by
  induction ms generalizing c with
  | nil => rfl
  | cons m ms ih =>
    rw [receiveAll]
    split
    · rfl
    next v h => exact (ih v.1).trans (receive_set h)

theorem kindRead_parses (p : Nat) (kind : FrameKind) : BitReader.Parses p FrameKind.read [(3, kind.bits)] kind := by
  have hbits : kind.bits < 2 ^ frameKindBits := by cases kind <;> decide
  show BitReader.Parses p FrameKind.read ([(3, kind.bits)] ++ []) kind
  refine (BitReader.readBits_parses p (by decide) hbits).bind ?_
  rw [FrameKind.fromBits_bits]
  exact .pure _ kind

/-- **A packet is read as the messages it carries**, one after another. -/
theorem readFrames_eq {ms : List Message} {c : Channels} {r : BitReader} {tail : List (Nat × Nat)} {fuel : Nat}
    (hwired : ∀ m ∈ ms, Wired c.set m) (hsees : r.Sees (framesFields c.set r.bitsRead ms ++ tail))
    (hend : EndsPacket r.buffer (r.bitsRead + width (framesFields c.set r.bitsRead ms)) tail)
    (hfuel : ms.length < fuel) : readFrames fuel c r = receiveAll ms c := by
  induction ms generalizing c r fuel with
  | nil =>
    obtain ⟨fuel, rfl⟩ : ∃ k, fuel = k + 1 := ⟨fuel - 1, by omega⟩
    rw [readFrames, receiveAll]
    split
    · rfl
    next hmore =>
      rcases hend with ⟨gs, rfl⟩ | hshort
      · obtain ⟨r', hrun, -⟩ := kindRead_parses r.bitsRead .padding r gs hsees rfl
        rw [hrun]
      · simp only [framesFields, width_nil, Nat.add_zero] at hshort
        rw [BitReader.bitsRemaining, show frameKindBits = 3 from rfl] at hmore
        omega
  | cons m ms ih =>
    obtain ⟨fuel, rfl⟩ : ∃ k, fuel = k + 1 := ⟨fuel - 1, by simp at hfuel; omega⟩
    obtain ⟨hsome, hlen⟩ := hwired m (by simp)
    obtain ⟨kind, hkind⟩ := Option.isSome_iff_exists.1 hsome
    have hgetD : (c.set.kind m.channel).getD .unreliable = kind := by rw [hkind]; rfl
    have hfits := hsees.fits
    simp only [framesFields, hgetD] at hsees hend hfits
    rw [List.append_assoc] at hsees
    obtain ⟨r₁, hrun₁, hsees₁, hpos₁, hbuf₁⟩ := kindRead_parses r.bitsRead .message r _ hsees rfl
    have hroom : ¬ r.bitsRemaining < frameKindBits := by
      simp only [frameFields, width_append, width_cons] at hfits
      rw [BitReader.bitsRemaining, show frameKindBits = 3 from rfl]
      omega
    rw [readFrames, if_neg hroom, hrun₁, receiveAll]
    dsimp only
    have hpos₁' : r.bitsRead + 3 = r₁.bitsRead := hpos₁.symm
    rw [hpos₁'] at hsees₁
    cases hrecv : c.receive m with
    | none =>
      obtain ⟨e, r₂, hrun₂⟩ := readMessage_error hkind hrecv hsees₁
      rw [hrun₂]
    | some v =>
      obtain ⟨r₂, hrun₂, hsees₂, hpos₂, hbuf₂⟩ := readMessage_parses _ hkind hlen hrecv r₁ _ hsees₁ rfl
      rw [hrun₂]
      dsimp only
      have hset := receive_set hrecv
      have hat : r.bitsRead + width (frameFields r.bitsRead kind m) = r₂.bitsRead := by
        rw [hpos₂, ← hpos₁', frameFields, width_cons, Nat.add_assoc]
      rw [hat, ← hset] at hsees₂
      rw [width_append, ← Nat.add_assoc, hat, ← hbuf₁, ← hbuf₂, ← hset] at hend
      rw [ih (fun n hn => by rw [hset]; exact hwired n (by simp [hn])) hsees₂ hend (by simp at hfuel; omega)]

/-- The marker is written, or there is no room for it and nothing is. -/
theorem writePadding_cases {w : BitWriter} {fs : List (Nat × Nat)} (h : w.Holds fs) :
    (width fs + 3 ≤ 8 * w.buf.length ∧ (writePadding w).Holds (fs ++ [(3, 0)]) ∧
        (writePadding w).buf.length = w.buf.length) ∨
      (8 * w.buf.length < width fs + 3 ∧ writePadding w = w) := by
  obtain ⟨hok, herr⟩ := BitWriter.writeBits_emits (width fs) 0 (show 3 ≤ 32 by decide) w fs h rfl
  rw [width_cons, width_nil] at hok herr
  rw [writePadding, show FrameKind.padding.write = BitWriter.writeBits 0 3 from rfl]
  by_cases hfit : width fs + 3 ≤ 8 * w.buf.length
  · obtain ⟨w', hrun, hold, hlen⟩ := hok hfit
    rw [hrun]
    exact .inl ⟨hfit, hold, hlen⟩
  · obtain ⟨e, w', -, hrun, -⟩ := herr (by omega)
    rw [hrun]
    exact .inr ⟨by omega, BitWriter.writeBits_error hrun⟩

/-- A finished packet, read from its start, is its frames and an end. -/
theorem packetBytes_sees {w : BitWriter} {fs : List (Nat × Nat)} (h : w.Holds fs) :
    ∃ tail, (BitReader.new (packetBytes w)).Sees (fs ++ tail) ∧ EndsPacket (packetBytes w) (width fs) tail := by
  have hwritten := h.written
  have hroom := h.room
  unfold packetBytes
  rcases writePadding_cases h with ⟨-, hold, -⟩ | ⟨hfull, hsame⟩
  · exact ⟨[(3, 0)], (BitReader.new_sees hold).1, .inl ⟨[], rfl⟩⟩
  · obtain ⟨hsees, hlen⟩ := BitReader.new_sees h
    rw [hsame]
    refine ⟨[], by rwa [List.append_nil], .inr ?_⟩
    omega

/-! ## Filling -/

/-- What one turn of filling a packet may do: stage the first waiting message
of a channel, or take back a frame that did not fit. -/
inductive FillStep (set : ChannelSet) (arena : Arena arenaBlocks) (limit start : Nat) : Filling → Filling → Prop
  | stage {s : Filling} {channel : Nat} {kind : ChannelKind} {m : Pending} {w : BitWriter} :
    set.kind channel = some kind →
    s.pending.items.find? (fun m => m.channel == channel && !m.inFlight) = some m →
    s.staged.isFull = false →
    (writeFrame kind m arena).run s.w = .ok () w →
    bytesFor (w.bitsWritten - start) ≤ limit →
    FillStep set arena limit start s
      { pending := s.pending.modifyFirst (fun m => m.channel == channel && !m.inFlight)
          fun m => { m with inFlight := true }
        w
        staged := (s.staged.push ⟨channel, m.id, kind.isReliable⟩).1
        wrote := true }
  | undo {s : Filling} {channel : Nat} {kind : ChannelKind} {m : Pending} {w : BitWriter} :
    set.kind channel = some kind →
    s.pending.items.find? (fun m => m.channel == channel && !m.inFlight) = some m →
    (∃ e, (writeFrame kind m arena).run s.w = .error e w) ∨ (writeFrame kind m arena).run s.w = .ok () w →
    FillStep set arena limit start s { s with w := w.rollback s.w.checkpoint }

/-- What every turn keeps, filling a channel keeps. -/
theorem fillChannel_rule {set : ChannelSet} {arena : Arena arenaBlocks} {limit start channel : Nat}
    {kind : ChannelKind} {P : Filling → Prop} (hkind : set.kind channel = some kind)
    (hstep : ∀ s s', P s → FillStep set arena limit start s s' → P s') (fuel : Nat) {s : Filling} (h : P s) :
    P (fillChannel arena limit start channel kind fuel s).1 := by
  induction fuel generalizing s with
  | zero => exact h
  | succ fuel ih =>
    rw [fillChannel]
    split
    · exact h
    next hgo =>
      simp only [Bool.or_eq_true, not_or, Bool.not_eq_true] at hgo
      split
      · exact h
      next m hfind =>
        split
        next e w hrun => exact hstep _ _ h (.undo hkind hfind (.inl ⟨e, hrun⟩))
        next w hrun =>
          split
          · exact hstep _ _ h (.undo hkind hfind (.inr hrun))
          next hle => exact ih (hstep _ _ h (.stage hkind hfind hgo.1 hrun (by omega)))

/-- What every turn keeps, filling a packet keeps. -/
theorem fillChannels_rule {set : ChannelSet} {arena : Arena arenaBlocks} {limit start : Nat} {P : Filling → Prop}
    (hstep : ∀ s s', P s → FillStep set arena limit start s s' → P s') (order : List Nat) {s : Filling} (h : P s) :
    P (fillChannels set arena limit start order s) := by
  induction order generalizing s with
  | nil => exact h
  | cons channel rest ih =>
    rw [fillChannels]
    split
    · exact ih h
    next kind hkind =>
      have hturn := fillChannel_rule hkind hstep (maxMessagesPerPacket + 1) h
      dsimp only
      split
      · exact ih hturn
      · exact hturn

end Channels
end HexNet
