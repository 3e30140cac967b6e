/-
A packet is built in a buffer that is lent, and holds what earlier packets left
in it. Nothing of that is in the packet: writers that stand for the same fields
are `Twins`, and every step of building a packet takes twins to twins, so the
datagram is the same whatever was there.
-/
import HexNet.BitRuns
import HexNet.Residents

namespace HexNet

open BitFields

namespace BitWriter

variable {w w' : BitWriter}

/-- What is emitted from wherever a writer stands is emitted by both, or by
neither, and taken back from both. -/
theorem Emits.twins {m : Write Unit} {fs : Nat → List (Nat × Nat)} (hm : ∀ p, Emits p m (fs p)) (h : w.Twins w') :
    (∃ v v', m.run w = .ok () v ∧ m.run w' = .ok () v' ∧ v.Twins v' ∧
      (v.rollback w.checkpoint).Twins (v'.rollback w'.checkpoint)) ∨
    ∃ e v e' v', m.run w = .error e v ∧ m.run w' = .error e' v' ∧
      (v.rollback w.checkpoint).Twins (v'.rollback w'.checkpoint) := by
  obtain ⟨gs, hw, hw', hlen⟩ := h
  obtain ⟨hok, herr⟩ := hm (width gs) w gs hw rfl
  obtain ⟨hok', herr'⟩ := hm (width gs) w' gs hw' rfl
  have hback : ∀ {v v'}, ((∃ e, m.run w = .error e v) ∨ m.run w = .ok () v) →
      ((∃ e, m.run w' = .error e v') ∨ m.run w' = .ok () v') →
      (v.rollback w.checkpoint).Twins (v'.rollback w'.checkpoint) := by
    intro v v' hrun hrun'
    obtain ⟨hold, hv⟩ := (hm (width gs)).rollback hw rfl hrun
    obtain ⟨hold', hv'⟩ := (hm (width gs)).rollback hw' rfl hrun'
    exact ⟨gs, hold, hold', by rw [hv, hv', hlen]⟩
  by_cases hfit : width gs + width (fs (width gs)) ≤ 8 * w.buf.length
  · obtain ⟨v, hrun, hold, hv⟩ := hok hfit
    obtain ⟨v', hrun', hold', hv'⟩ := hok' (by rwa [hlen])
    exact .inl ⟨v, v', hrun, hrun', ⟨_, hold, hold', by rw [hv, hv', hlen]⟩, hback (.inr hrun) (.inr hrun')⟩
  · obtain ⟨e, v, -, hrun, -⟩ := herr (by omega)
    obtain ⟨e', v', -, hrun', -⟩ := herr' (by rw [hlen]; omega)
    exact .inr ⟨e, v, e', v', hrun, hrun', hback (.inl ⟨e, hrun⟩) (.inl ⟨e', hrun'⟩)⟩

end BitWriter

namespace Channels

open BitWriter

/-- A packet's bytes are of the fields that were written. -/
theorem packetBytes_twins {w w' : BitWriter} (h : w.Twins w') : packetBytes w = packetBytes w' := by
  have hbytes : ∀ w, packetBytes w = (left ((writeBits FrameKind.padding.bits frameKindBits).run w)).output := by
    intro w
    unfold packetBytes writePadding FrameKind.write
    cases (writeBits FrameKind.padding.bits frameKindBits).run w <;> rfl
  have hpadded := writeBits_uniform FrameKind.padding.bits (show frameKindBits ≤ 32 by decide) w w' h
  rw [hbytes, hbytes]
  exact congrArg View.output (twins_left hpadded).view_eq

/-! ## Filling a packet -/

/-- Two packets being filled alike. -/
structure Matched (s s' : Filling) : Prop where
  pending_eq : s.pending = s'.pending
  staged_eq : s.staged = s'.staged
  wrote_eq : s.wrote = s'.wrote
  twins : s.w.Twins s'.w

variable {set : ChannelSet} {arena : Arena arenaBlocks} {channel : Nat} {kind : ChannelKind} {s s' : Filling}

theorem fillChannel_matched (limit start : Nat) (hkind : set.kind channel = some kind) (fuel : Nat) (h : Matched s s')
    (hcan : Writable set arena s.pending.items) :
    Matched (fillChannel arena limit start channel kind fuel s).1 (fillChannel arena limit start channel kind fuel s').1 ∧
      (fillChannel arena limit start channel kind fuel s).2 = (fillChannel arena limit start channel kind fuel s').2 ∧
      Writable set arena (fillChannel arena limit start channel kind fuel s).1.pending.items := by
  induction fuel generalizing s s' with
  | zero => exact ⟨h, rfl, hcan⟩
  | succ fuel ih =>
    obtain ⟨pending, w, staged, wrote⟩ := s
    obtain ⟨_, w', _, _⟩ := s'
    obtain ⟨rfl, rfl, rfl, htwins⟩ := h
    rw [fillChannel, fillChannel]
    dsimp only at hcan htwins ⊢
    rw [htwins.written]
    split
    · exact ⟨⟨rfl, rfl, rfl, htwins⟩, rfl, hcan⟩
    · cases hfind : pending.items.find? fun m => m.channel == channel && !m.inFlight with
      | none => exact ⟨⟨rfl, rfl, rfl, htwins⟩, rfl, hcan⟩
      | some m =>
        have hchannel : m.channel = channel := by
          have hm := List.find?_some hfind
          simp only [Bool.and_eq_true, beq_iff_eq] at hm
          exact hm.1
        obtain ⟨msg, -, hemits⟩ := hcan m (List.mem_of_find?_eq_some hfind) kind (by rw [hchannel]; exact hkind)
        dsimp only
        rcases Emits.twins hemits htwins with ⟨v, v', hrun, hrun', hv, hback⟩ | ⟨e, v, e', v', hrun, hrun', hback⟩
        · rw [hrun, hrun']
          dsimp only
          rw [hv.written]
          split
          · exact ⟨⟨rfl, rfl, rfl, hback⟩, rfl, hcan⟩
          · exact ih ⟨rfl, rfl, rfl, hv⟩ (hcan.marked _)
        · rw [hrun, hrun']
          exact ⟨⟨rfl, rfl, rfl, hback⟩, rfl, hcan⟩

theorem fillChannels_matched (limit start : Nat) (channels : List Nat) (h : Matched s s')
    (hcan : Writable set arena s.pending.items) :
    Matched (fillChannels set arena limit start channels s) (fillChannels set arena limit start channels s') := by
  induction channels generalizing s s' with
  | nil => exact h
  | cons channel channels ih =>
    rw [fillChannels, fillChannels]
    split
    · exact ih h hcan
    next kind hkind =>
      obtain ⟨hmatched, hgo, hcan'⟩ := fillChannel_matched limit start hkind (maxMessagesPerPacket + 1) h hcan
      dsimp only
      rw [hgo]
      split
      · exact ih hmatched hcan'
      · exact hmatched

/-- Messages are taken alike into two packets that stand alike. -/
theorem Intact.writeFrames_twins {c : Channels} (h : c.Intact) {w w' : BitWriter} (hw : w.Twins w') (staged : PacketMessages)
    (limit : Nat) : (c.writeFrames w staged limit).1 = (c.writeFrames w' staged limit).1 ∧
      (c.writeFrames w staged limit).2.1.Twins (c.writeFrames w' staged limit).2.1 ∧
      (c.writeFrames w staged limit).2.2 = (c.writeFrames w' staged limit).2.2 := by
  have hstart : Matched ⟨c.pending, w, staged, false⟩ ⟨c.pending, w', staged, false⟩ := ⟨rfl, rfl, rfl, hw⟩
  have hmatched := fillChannels_matched limit w.bitsWritten (List.range c.set.len) hstart h.writable
  unfold writeFrames
  rw [hw.written]
  dsimp only
  exact ⟨by rw [hmatched.pending_eq], hmatched.twins, Prod.ext hmatched.staged_eq hmatched.wrote_eq⟩

end Channels

/-! ## A packet -/

namespace Connection

variable {R : Type} {c : Connection R}

theorem fillPacket_twins (h : c.channels.Intact) {w w' : BitWriter} (hw : w.Holds []) (hw' : w'.Holds [])
    (hlen : w.buf.length = w'.buf.length) (hfit : 4280 ≤ 8 * w.buf.length) (allowance headerLen : Nat) :
    (c.fillPacket allowance headerLen w).1 = (c.fillPacket allowance headerLen w').1 ∧
      (c.fillPacket allowance headerLen w).2.1.Twins (c.fillPacket allowance headerLen w').2.1 ∧
      (c.fillPacket allowance headerLen w).2.2 = (c.fillPacket allowance headerLen w').2.2 := by
  obtain ⟨w₁, hcontrol, hwrote⟩ := c.writeControl_spec hw hfit
  obtain ⟨w₁', hcontrol', hwrote'⟩ := c.writeControl_spec hw' (hlen ▸ hfit)
  have htwins : w₁.Twins w₁' := ⟨_, hwrote.holds, hwrote'.holds, by rw [hwrote.len_eq, hwrote'.len_eq, hlen]⟩
  simp only [fillPacket, hcontrol, hcontrol', htwins.written]
  generalize allowance - (headerLen + tagLen + Channels.bytesFor w₁.bitsWritten) = limit
  by_cases hopen : c.lifecycle = .open ∧ 0 < limit
  · have hdata : ∀ w, c.controlled.writeData w limit = c.channels.writeFrames w .empty limit := fun _ => if_pos hopen
    obtain ⟨hchannels, hframes, hrest⟩ := h.writeFrames_twins htwins .empty limit
    simp only [hdata, hchannels, hrest]
    exact ⟨trivial, hframes, trivial⟩
  · have hdata : ∀ w, c.controlled.writeData w limit = (c.channels, w, .empty, false) := fun _ => if_neg hopen
    simp only [hdata]
    exact ⟨trivial, htwins, trivial⟩

theorem buildPacket_blind (h : c.channels.Intact) (now : Timestamp) (out out' : Packet) :
    c.buildPacket now out = c.buildPacket now out' := by
  obtain ⟨filled, staged, new, w, hfill, hfilled⟩ := filling_filled h now out
  obtain ⟨filled', staged', new', w', hfill', hfilled'⟩ := filling_filled h now out'
  have hroom := c.bodyWriter_room now out
  have hlen := length_bodyWriter (c.buildHeader now) out
  obtain ⟨hconn, htwins, hrest⟩ := fillPacket_twins (c := c.prepared now) (c.requeued_settles.intact h)
    (BitWriter.new_holds _) (BitWriter.new_holds _) (hlen.trans (length_bodyWriter (c.buildHeader now) out').symm)
    (Nat.le_trans (by decide) hroom) (c.budget.available now).2 (c.buildHeader now).bytes.length
  have hsame : (c.filling now out).1 = (c.filling now out').1 := hconn
  have htwins : (c.filling now out).2.1.Twins (c.filling now out').2.1 := htwins
  have hrest : (c.filling now out).2.2 = (c.filling now out').2.2 := hrest
  rw [hfill, hfill'] at hsame htwins hrest
  obtain ⟨rfl, heliciting⟩ := Prod.ext_iff.1 hrest
  have hfilledEq : filled = filled' := congrArg Connection.channels hsame
  dsimp only at heliciting
  subst hfilledEq
  rw [buildPacket_eq hfill, buildPacket_eq hfill', heliciting]
  split
  · rfl
  · obtain ⟨sealed, hsealed, hseal⟩ := sealPacket_spec (c.filledWith now filled) now (c.buildHeader now) out
      hfilled.carrying.holds hfilled.carrying.len_eq staged (c.elicits new')
    obtain ⟨sealed', hsealed', hseal'⟩ := sealPacket_spec (c.filledWith now filled) now (c.buildHeader now) out'
      hfilled'.carrying.holds hfilled'.carrying.len_eq staged (c.elicits new')
    rw [Channels.packetBytes_twins htwins, hsealed'] at hsealed
    cases hsealed
    rw [hseal, hseal']

/-- **A packet is of its connection alone**, whatever the buffer held. -/
theorem pollTransmit_blind (h : c.channels.Intact) (now : Timestamp) (out out' : Packet) :
    c.pollTransmit now out = c.pollTransmit now out' := by
  unfold pollTransmit
  dsimp only
  split
  · exact buildPacket_blind (c := c.assessed now) h now out out'
  · rfl

end Connection

/-! ## A drain -/

namespace Endpoint

variable {suite : Suite} {e : Endpoint} {now : Timestamp}

theorem Resident.drainOne_eq (h : e.Resident) (now : Timestamp) (handle : Handle) (slot slot' : Packet) :
    e.drainOne now handle slot = e.drainOne now handle slot' := by
  unfold drainOne
  cases hget : e.connections.get handle with
  | none => rfl
  | some conn =>
    dsimp only
    rw [Connection.pollTransmit_blind (Connection.reach_intact (h handle conn hget)) now slot slot']

theorem Housed.drain_blind (h : e.Housed) {slots slots' : List Packet} (hlen : slots.length = slots'.length) :
    drainTransmits now slots e = drainTransmits now slots' e := by
  induction slots generalizing e slots' with
  | nil => rw [List.length_eq_zero_iff.1 hlen.symm]
  | cons slot slots ih =>
    cases slots' with
    | nil => cases hlen
    | cons slot' slots' =>
      rw [drainTransmits, drainTransmits]
      cases hready : e.ready with
      | nil => rfl
      | cons handle ready =>
        have hhoused := h.turn (.drained e handle ready slot hready : Turn now e _)
        have hone := Resident.drainOne_eq (e := { e with ready }) h.resident now handle slot slot'
        dsimp only
        rw [ih hhoused (Nat.succ.inj hlen), hone]

/-- **Nothing is sent of what a buffer held before**: a client's packets, and
all that an endpoint drains and becomes, are the same whatever the buffers they
are built in were lent with. -/
theorem sent_from_state (h : Lts.Reachable (sys suite) e) {client : Connection Client}
    (hclient : Lts.Reachable (Connection.sys Client) client) (now : Timestamp) (out out' : Packet)
    {slots slots' : List Packet} (hlen : slots.length = slots'.length) :
    client.pollTransmit now out = client.pollTransmit now out' ∧
      drainTransmits now slots e = drainTransmits now slots' e :=
  ⟨Connection.pollTransmit_blind (Connection.reach_intact hclient) now out out', (reachable_housed h).drain_blind hlen⟩

/-- A buffer full of ones. -/
def inked : Packet := ⟨List.replicate maxDatagram 255, by simp⟩

/-- A client that has a message to send. -/
def speaking : Connection Client :=
  (Connection.connect .zero 0 (.v4 0 0) .clear .clear orderedOnly .default).after
    (.send 0 [7])

theorem speaking_reachable : Lts.Reachable (Connection.sys Client) speaking :=
  .step (.start ⟨.zero, 0, .v4 0 0, .clear, .clear, orderedOnly, .default, .none,
    ⟨.none⟩, ⟨rfl, rfl⟩, rfl⟩) trivial rfl

theorem sent_from_state_inked :
    speaking.pollTransmit .zero Connection.blank = speaking.pollTransmit .zero inked ∧
      drainTransmits .zero [Connection.blank] greeted = drainTransmits .zero [inked] greeted :=
  sent_from_state greeted_reachable speaking_reachable .zero Connection.blank inked rfl

end Endpoint
end HexNet
