/-
What a data packet takes of its allowance (`connection.rs`, `channel.rs`).

`poll_transmit` leaves the channels what the allowance has beyond the header,
the tag and the control frames, and the channels stay within that. But both
parts are rounded up to bytes on their own, and the marker that ends the
frames is written after them. A message ends on a byte. So where the control
frames do too and the messages take the limit to its last byte, the marker
takes a byte more than the allowance (`packet_over_allowance`); everywhere
else the packet is within it (`packet_within_allowance`).
-/
import HexNet.Transmit

namespace HexNet

open BitFields

namespace Channels

/-- Frames stay within the limit they are given. -/
theorem writeFrames_within (c : Channels) (w : BitWriter) (staged : PacketMessages) (limit : Nat) :
    bytesFor ((c.writeFrames w staged limit).2.1.bitsWritten - w.bitsWritten) ≤ limit := by
  refine fillChannels_rule (P := fun s => bytesFor (s.w.bitsWritten - w.bitsWritten) ≤ limit) ?_ _ ?_
  · intro s s' hs hstep
    cases hstep with
    | stage _ _ _ _ hfits => exact hfits
    | undo _ _ _ => exact hs
  · rw [Nat.sub_self]
    exact Nat.zero_le _

/-- A frame ends on a byte. -/
theorem frameFields_aligned (p : Nat) (kind : ChannelKind) (m : Message) :
    (p + width (frameFields p kind m)) % 8 = 0 := by
  rw [frameEnd_eq]
  exact Nat.mul_mod_right 8 _

theorem framesFields_aligned (set : ChannelSet) (p : Nat) {ms : List Message} (hne : ms ≠ []) :
    (p + width (framesFields set p ms)) % 8 = 0 := by
  induction ms generalizing p with
  | nil => exact absurd rfl hne
  | cons m ms ih =>
    rw [framesFields, width_append, ← Nat.add_assoc]
    cases ms with
    | nil =>
      rw [framesFields, width_nil, Nat.add_zero]
      exact frameFields_aligned p _ m
    | cons m' ms => exact ih _ (by simp)

end Channels

namespace Budget

theorem available_le (b : Budget) (now : Timestamp) : (b.available now).2 ≤ b.config.maxPacket := by
  rw [← b.advance_config now]
  exact Nat.min_le_right _ _

end Budget

namespace Connection

open Channels

variable {R : Type}

/-- A packet with messages: what the messages may take, they took no more
than. -/
theorem fillPacket_within {c : Connection R} {w : BitWriter} (hw : w.Holds []) (hfit : 4280 ≤ 8 * w.buf.length)
    (allowance headerLen : Nat) (hcarries : (c.fillPacket allowance headerLen w).2.2.1.items ≠ []) :
    headerLen + tagLen + bytesFor c.controlBits +
      bytesFor ((c.fillPacket allowance headerLen w).2.1.bitsWritten - c.controlBits) ≤ allowance := by
  obtain ⟨w₁, hcontrol, hw₁⟩ := c.writeControl_spec hw hfit
  have hbits : w₁.bitsWritten = c.controlBits := hw₁.holds.written
  simp only [fillPacket, hcontrol, hbits] at hcarries ⊢
  by_cases hopen : c.lifecycle = .open ∧ 0 < allowance - (headerLen + tagLen + bytesFor c.controlBits)
  · have hdata : c.controlled.writeData w₁ (allowance - (headerLen + tagLen + bytesFor c.controlBits)) =
        c.channels.writeFrames w₁ .empty (allowance - (headerLen + tagLen + bytesFor c.controlBits)) := if_pos hopen
    have hwithin := c.channels.writeFrames_within w₁ .empty (allowance - (headerLen + tagLen + bytesFor c.controlBits))
    rw [hdata, ← hbits]
    rw [← hbits] at hwithin hopen
    omega
  · have hdata : c.controlled.writeData w₁ (allowance - (headerLen + tagLen + bytesFor c.controlBits)) =
        (c.channels, w₁, .empty, false) := if_neg hopen
    rw [hdata] at hcarries
    exact absurd rfl hcarries

/-- The bytes of a body that ends on a byte: its own, and one for the marker
where there is room. -/
theorem length_packetBytes {w : BitWriter} {fs : List (Nat × Nat)} (hw : w.Holds fs) (haligned : w.bitsWritten % 8 = 0) :
    (packetBytes w).length = w.bitsWritten / 8 + if w.bitsWritten / 8 < w.buf.length then 1 else 0 := by
  have hwritten := hw.written
  have hroom := hw.room
  have hlen {v : BitWriter} {gs : List (Nat × Nat)} (hv : v.Holds gs) :
      (v.finish.1.take v.finish.2).length = (width gs + 7) / 8 := by
    obtain ⟨-, hend, hle, hbuf⟩ := BitWriter.finish_bytes hv
    rw [List.length_take, hbuf, Nat.min_eq_left hle, hend]
  rw [packetBytes]
  rcases writePadding_cases hw with ⟨hfit, hold, -⟩ | ⟨hfull, hsame⟩
  · rw [hlen hold, width_append, width_cons, width_nil, if_pos (by omega)]
    omega
  · rw [hsame, hlen hw, if_neg (by omega)]
    omega

/-- What waits takes the allowance to its last byte: the control frames owed end
on a byte, and with the header, the tag and the messages that fit behind them
they take all of it. -/
def Flush (c : Connection R) (now : Timestamp) : Prop :=
  c.controlBits % 8 = 0 ∧ (c.buildHeader now).bytes.length + tagLen + c.bodyBits now / 8 = (c.budget.available now).2

/-- The messages the next packet carries. -/
def aboard (c : Connection R) (now : Timestamp) (out : Packet) : List Written := (c.filling now out).2.2.1.items

theorem buildPacket_length {c : Connection R} (h : c.channels.Intact) {now : Timestamp} {out : Packet}
    {datagram : List UInt8} (hbuilt : (c.buildPacket now out).2 = some datagram) (hcarries : c.aboard now out ≠ []) :
    datagram.length ≤ (c.budget.available now).2 + 1 ∧
      ((c.budget.available now).2 < datagram.length ↔ c.Flush now ∧ (c.budget.available now).2 < maxDatagram) := by
  obtain ⟨filled, staged, new, w, hfill, hfilled⟩ := filling_filled h now out
  have hwithin : (c.buildHeader now).bytes.length + tagLen + bytesFor c.controlBits +
      bytesFor ((c.filling now out).2.1.bitsWritten - c.controlBits) ≤ (c.budget.available now).2 :=
    fillPacket_within (c := c.prepared now) (BitWriter.new_holds _)
      (Nat.le_trans (by decide) (c.bodyWriter_room now out)) (c.budget.available now).2
      ((c.buildHeader now).encode out.bytes).2 hcarries
  have hnew : new ≠ [] := by
    rintro rfl
    unfold aboard at hcarries
    rw [hfill] at hcarries
    exact hcarries hfilled.carrying.staged_eq
  have hholds : w.Holds _ := hfilled.carrying.holds
  have hbits : w.bitsWritten = c.controlBits + width (framesFields (c.prepared now).channels.set c.controlBits
      (new.map (Written.entryMessage (c.prepared now).channels.contents))) := hholds.written.trans (width_append _ _)
  have haligned : w.bitsWritten % 8 = 0 := by
    rw [hbits]
    exact framesFields_aligned _ _ (by simpa using hnew)
  have hbuf : w.buf.length = maxDatagram - tagLen - (c.buildHeader now).bytes.length := hfilled.carrying.len_eq
  obtain ⟨sealed, hsealed, hseal⟩ := sealPacket_spec (c.filledWith now filled) now (c.buildHeader now) out
    hholds hbuf staged (c.elicits new)
  have hdatagram : datagram.length = (c.buildHeader now).bytes.length + tagLen + (packetBytes w).length := by
    rw [buildPacket_eq hfill, if_neg (by simp [elicits, hnew]), hseal] at hbuilt
    obtain ⟨hbody, htag⟩ := c.crypto.tx.inner.encrypt_len _ _ _ _ hsealed
    rw [← Option.some.inj hbuilt, List.length_append, List.length_append, hbody, htag]
    omega
  rw [hfill] at hwithin
  have hpacks := filling_packs h now out
  rw [hfill] at hpacks
  unfold Flush
  rw [← hpacks, hdatagram, length_packetBytes hholds haligned]
  have hroom := hholds.room
  have hheader := (c.buildHeader now).length_bytes_le
  unfold maxDatagram tagLen at hbuf
  unfold bytesFor tagLen at hwithin
  unfold headerMaxLen at hheader
  unfold maxDatagram tagLen
  dsimp only at hwithin ⊢
  split <;> omega

/-- **A data packet is within its allowance**, and so within the configured
cap, except where its frames end with the allowance on a byte: there the
marker behind them makes it one byte longer, if a datagram can be. -/
theorem packet_within_allowance [Role R] [LawfulRole R] [OwnOps R] {c : Connection R} (h : Lts.Reachable (sys R) c)
    {now : Timestamp} {out : Packet} {datagram : List UInt8} (hpoll : (c.pollTransmit now out).2 = some datagram)
    (hcarries : (c.assessed now).aboard now out ≠ []) :
    let allowance := ((c.assessed now).budget.available now).2
    allowance ≤ c.budget.config.maxPacket ∧ datagram.length ≤ allowance + 1 ∧
      (datagram.length ≤ allowance ↔ ¬ ((c.assessed now).Flush now ∧ allowance < maxDatagram)) := by
  have hbuilt : ((c.assessed now).buildPacket now out).2 = some datagram := by
    unfold pollTransmit at hpoll
    dsimp only at hpoll
    split at hpoll
    · exact hpoll
    · cases hpoll
  have hintact : c.channels.Intact := reach_intact h
  obtain ⟨hlen, hover⟩ := buildPacket_length (c := c.assessed now) hintact hbuilt hcarries
  refine ⟨?_, hlen, by rw [← hover, Nat.not_lt]⟩
  have hconfig : (c.assessed now).budget.config = c.budget.config := Budget.assess_config ..
  rw [← hconfig]
  exact Budget.available_le _ now

/-! ## A byte over -/

/-- The smallest cap a budget admits, at the default rate. -/
def capped : TransportConfig :=
  ⟨⟨8000, minPacket, BudgetConfig.default.rate_lt, BudgetConfig.default.rate_ge, Nat.le_refl minPacket,
    minPacket_le_maxDatagram⟩, .default, .default⟩

/-- A server's connection of one channel. -/
def cappedStart : Connection Server :=
  .accept .zero 0 0 ⟨List.replicate nonceLen 0, TicketId.length_zeros⟩ (.v4 0 0) .clear .clear
    orderedOnly capped

/-- Once the acceptance has gone out, two messages of `len` bytes wait. -/
def twoOf (len : Nat) : Connection Server :=
  [Call.pollTransmit .zero blank, .send 0 (List.replicate len 0), .send 0 (List.replicate len 0)].foldl after cappedStart

theorem twoOf_reachable (len : Nat) : Lts.Reachable (sys Server) (twoOf len) := reach_calls (accept_reachable ..) _

/-- Small ones leave room. -/
theorem packet_within_allowance_small : ∃ datagram, ((twoOf 1).pollTransmit .zero blank).2 = some datagram ∧
    datagram.length ≤ (((twoOf 1).assessed .zero).budget.available .zero).2 := by
  have hsome : ((twoOf 1).pollTransmit .zero blank).2.isSome = true := by decide +kernel
  obtain ⟨datagram, hpoll⟩ := Option.isSome_iff_exists.1 hsome
  have hflush : ¬ ((twoOf 1).assessed .zero).Flush .zero := fun h => absurd h.2 (by decide +kernel)
  exact ⟨datagram, hpoll, (packet_within_allowance (twoOf_reachable 1) hpoll (by decide +kernel)).2.2.2
    fun h => hflush h.1⟩

/-- A poll that is due and whose frames end with the allowance on a byte goes
over it. -/
theorem Flush.over {c : Connection R} {now : Timestamp} {out : Packet} (hflush : (c.assessed now).Flush now)
    (h : c.channels.Intact) (hdue : (c.assessed now).transmitDue now = true)
    (hback : (c.assessed now).budget.lastRefill ≤ now) (hend : now.nanos < 2 ^ 64 - 1)
    (hcarries : (c.assessed now).aboard now out ≠ []) (hlt : ((c.assessed now).budget.available now).2 < maxDatagram) :
    ∃ datagram, (c.pollTransmit now out).2 = some datagram ∧
      ((c.assessed now).budget.available now).2 < datagram.length := by
  have hintact : (c.assessed now).channels.Intact := h
  have hsome := (buildPacket_builds hintact now out).isSome hintact ((transmitDue_iff _ _).1 hdue) hback hend
  obtain ⟨datagram, hbuilt⟩ := Option.isSome_iff_exists.1 hsome
  refine ⟨datagram, ?_, (buildPacket_length hintact hbuilt hcarries).2.2 ⟨hflush, hlt⟩⟩
  unfold pollTransmit
  dsimp only
  rw [if_pos hdue, hbuilt]

set_option maxRecDepth 10000 in
theorem twoOf_state : ((twoOf 513).assessed .zero).transmitDue .zero = true ∧
    ((twoOf 513).assessed .zero).budget.lastRefill ≤ .zero ∧ ((twoOf 513).assessed .zero).controlBits = 0 ∧
    (((twoOf 513).assessed .zero).buildHeader .zero).bytes.length = 7 ∧
    (((twoOf 513).assessed .zero).budget.available .zero).2 = 1059 ∧ (twoOf 513).budget.config.maxPacket = 1059 := by
  decide +kernel

set_option maxRecDepth 10000 in
theorem twoOf_body : ((twoOf 513).assessed .zero).bodyBits .zero = 8288 ∧
    (((twoOf 513).assessed .zero).aboard .zero blank).isEmpty = false := by
  decide +kernel

/-- **A packet over its allowance, and over the cap**: two messages whose
frames take it to the last byte. -/
theorem packet_over_allowance : ∃ c : Connection Server, Lts.Reachable (sys Server) c ∧ ∃ now out datagram,
    (c.pollTransmit now out).2 = some datagram ∧ (c.assessed now).aboard now out ≠ [] ∧
      ((c.assessed now).budget.available now).2 < datagram.length ∧ c.budget.config.maxPacket < datagram.length := by
  have hreach := twoOf_reachable 513
  obtain ⟨hdue, hback, hcontrol, hheader, havailable, hcap⟩ := twoOf_state
  obtain ⟨hbits, hitems⟩ := twoOf_body
  generalize twoOf 513 = c at *
  have hcarries : (c.assessed .zero).aboard .zero blank ≠ [] := by
    rw [Ne, ← List.isEmpty_iff, hitems]
    exact Bool.false_ne_true
  have hflush : (c.assessed .zero).Flush .zero := by
    refine ⟨by rw [hcontrol], ?_⟩
    rw [hheader, hbits, havailable]
    rfl
  obtain ⟨datagram, hpoll, hover⟩ := hflush.over (reach_intact hreach) hdue hback (by decide) hcarries
    (by rw [havailable]; decide)
  refine ⟨c, hreach, .zero, blank, datagram, hpoll, hcarries, hover, ?_⟩
  rw [hcap, ← havailable]
  exact hover

end Connection
end HexNet
