/-
The transmit judgement is exact: a packet comes out of `poll_transmit` exactly
when `transmit_at` has come.

The two computations meet in the budget. `ready_for` promises the bytes of the
first message's datagram with the largest header and frame overhead, and the
packet spends no more on it; control frames always fit, and an acknowledgement
needs nothing but the header. The one exception is the clock's last instant,
where a deadline past the end saturates to an instant that comes: a message
that nothing was earned for is then due, and starves
(`saturated_deadline_aborts`).
-/
import HexNet.ConnectionFacts

namespace HexNet

namespace Connection

variable {R : Type}

/-- The instant a packet is owed has come. -/
def Owing (c : Connection R) (now : Timestamp) : Prop := ∃ t, c.transmitAt = some t ∧ t ≤ now

theorem transmitDue_iff (c : Connection R) (now : Timestamp) : c.transmitDue now = true ↔ c.Owing now := by
  rw [transmitDue, Option.any_eq_true]
  exact exists_congr fun t => and_congr_right fun _ => decide_eq_true_iff

theorem earliest_le {a b : Option Timestamp} {now t : Timestamp} (h : Timestamp.earliest a b = some t) (hle : t ≤ now) :
    (∃ s, a = some s ∧ s ≤ now) ∨ ∃ s, b = some s ∧ s ≤ now := by
  cases a with
  | none => exact .inr ⟨t, h, hle⟩
  | some a =>
    cases b with
    | none => exact .inl ⟨t, h, hle⟩
    | some b =>
      cases h
      rw [Timestamp.le_iff, Timestamp.min_nanos] at hle
      by_cases hab : a.nanos ≤ b.nanos
      · exact .inl ⟨a, rfl, by rw [Timestamp.le_iff]; omega⟩
      · exact .inr ⟨b, rfl, by rw [Timestamp.le_iff]; omega⟩

theorem quiet_of_controlFrames {c : Connection R} (hframes : c.controlFrames = []) :
    ¬ (0 < c.pendingProbes ∨ c.isClosing = true ∨ (!c.control.isEmpty) = true) := by
  have hempty := c.controlFrames_isEmpty
  rw [hframes] at hempty
  obtain ⟨⟨hclose, hcontrol⟩, hping⟩ : (c.closeFrames = [] ∧ c.control.isEmpty = true) ∧ c.pingFrames = [] := by
    simpa using hempty.symm
  rintro (hprobes | hclosing | howed)
  · rw [pingFrames, if_pos (by omega)] at hping
    cases hping
  · unfold isClosing at hclosing
    unfold closeFrames at hclose
    split at hclosing
    next reason remaining hlife => rw [hlife] at hclose; cases hclose
    · cases hclosing
    · cases hclosing
  · rw [hcontrol] at howed
    cases howed

/-- A packet owed with no control frame to carry is owed to an
acknowledgement, or to a message the budget is ready for. -/
theorem Owing.idle {c : Connection R} {now : Timestamp} (h : c.Owing now) (hframes : c.controlFrames = []) :
    c.acks.due now = true ∨ ∃ len, c.lifecycle = .open ∧ c.channels.nextUnsentLen = some len ∧
      c.budget.readyFor len ≤ now := by
  obtain ⟨t, ht, hle⟩ := h
  rw [transmitAt, if_neg (quiet_of_controlFrames hframes)] at ht
  split at ht
  · cases ht
  rcases earliest_le ht hle with ⟨s, hs, hsle⟩ | ⟨s, hs, hsle⟩
  · exact .inl (by rw [Acks.due, hs]; exact decide_eq_true hsle)
  · right
    unfold dataAt at hs
    split at hs
    next hopen =>
      obtain ⟨len, hlen, rfl⟩ := Option.map_eq_some_iff.1 hs
      exact ⟨len, hopen, hlen, hsle⟩
    · cases hs
    · cases hs

theorem Owing.of_ready {c : Connection R} {now : Timestamp} {len : Nat} (hframes : c.controlFrames = [])
    (hopen : c.lifecycle = .open) (hnext : c.channels.nextUnsentLen = some len) (hready : c.budget.readyFor len ≤ now) :
    c.Owing now := by
  have hdata : c.dataAt = some (c.budget.readyFor len) := by
    rw [dataAt, hopen]
    dsimp only
    rw [hnext, Option.map_some]
  obtain ⟨t, ht, hle⟩ := Timestamp.earliest_le_right c.acks.deadline (b := c.budget.readyFor len)
  refine ⟨t, ?_, Timestamp.le_trans hle hready⟩
  rw [transmitAt, if_neg (by rw [hopen]; nofun), if_neg (quiet_of_controlFrames hframes), hdata]
  exact ht

theorem requeued_of_idle {c : Connection R} (hframes : c.controlFrames = []) : c.requeued = c.channels := by
  have hping : c.pingFrames = [] := by
    rw [controlFrames, List.append_eq_nil_iff] at hframes
    exact hframes.2
  unfold pingFrames at hping
  rw [requeued, if_neg]
  split at hping
  · cases hping
  · omega

/-- Only a message waits, its deadline has come, and its frame is past the
allowance. -/
structure Starved (c : Connection R) (now : Timestamp) : Prop where
  controlFrames_eq : c.controlFrames = []
  due_eq : c.acks.due now = false
  open_eq : c.lifecycle = .open
  short : ∃ q, Channels.first c.channels.queues = some q ∧ c.budget.readyFor q.2 ≤ now ∧
    (c.budget.available now).2 <
      (c.buildHeader now).bytes.length + tagLen + (Channels.bytesFor (Channels.frameBits q.1) + q.2)

/-- A packet of messages alone is empty when the first of them is past the
allowance. -/
theorem bodyBits_eq_zero_iff {c : Connection R} (h : c.channels.Intact) (hframes : c.controlFrames = [])
    (hopen : c.lifecycle = .open) (now : Timestamp) :
    c.bodyBits now = 0 ↔ ∀ q, Channels.first c.channels.queues = some q → (c.budget.available now).2 <
      (c.buildHeader now).bytes.length + tagLen + (Channels.bytesFor (Channels.frameBits q.1) + q.2) := by
  have hcontrol : (c.prepared now).controlBits = 0 := by
    show c.controlBits = 0
    rw [controlBits, hframes]
    rfl
  have hchannels : (c.prepared now).channels = c.channels := requeued_of_idle hframes
  have hopen' : (c.prepared now).lifecycle = .open := hopen
  have hbits (kind : ChannelKind) : 0 < Channels.bytesFor (Channels.frameBits kind) ∧
      Channels.bytesFor (Channels.frameBits kind) ≤ 5 := by cases kind <;> decide
  have hend (kind : ChannelKind) (len : Nat) : Channels.bytesFor (Channels.frameEnd kind 0 len - 0) =
      Channels.bytesFor (Channels.frameBits kind) + len := by
    rw [Channels.frameEnd, Nat.zero_add]
    unfold Channels.bytesFor
    omega
  simp only [bodyBits, packed, hcontrol, hchannels, hopen', true_and, show Channels.bytesFor 0 = 0 from rfl]
  split
  next hlimit =>
    rw [Channels.packChannels_first (fun q hq => ?_) (by decide) hlimit]
    · refine forall_congr' fun q => imp_congr_right fun _ => ?_
      rw [hend]
      omega
    · -- a packet always has room for one message
      have hlen : q.2 ≤ maxMessage := h.nextUnsentLen_le (by rw [Channels.nextUnsentLen_eq, hq]; rfl)
      have hheader := (c.buildHeader now).length_bytes_le
      have hfive := (hbits q.1).2
      rw [Channels.frameEnd, Nat.zero_add, bodyLen]
      unfold headerMaxLen at hheader
      unfold maxMessage at hlen
      unfold maxDatagram tagLen
      omega
  next hlimit =>
    refine iff_of_true rfl fun q _ => ?_
    have := (hbits q.1).1
    omega

/-- A packet is owed that has nothing to carry exactly when a message starves. -/
theorem starved_iff {c : Connection R} (h : c.channels.Intact) (now : Timestamp) :
    c.Starved now ↔ c.Owing now ∧ c.Bare now := by
  constructor
  · rintro ⟨hframes, hack, hopen, q, hfirst, hready, hshort⟩
    have hnext : c.channels.nextUnsentLen = some q.2 := by rw [Channels.nextUnsentLen_eq, hfirst]; rfl
    refine ⟨.of_ready hframes hopen hnext hready, hframes, hack, ?_⟩
    rw [bodyBits_eq_zero_iff h hframes hopen, hfirst]
    rintro _ ⟨⟩
    exact hshort
  · rintro ⟨howing, hframes, hack, hempty⟩
    rcases howing.idle hframes with hdue | ⟨len, hopen, hnext, hready⟩
    · rw [hack] at hdue
      cases hdue
    · rw [Channels.nextUnsentLen_eq] at hnext
      obtain ⟨q, hfirst, rfl⟩ := Option.map_eq_some_iff.1 hnext
      exact ⟨hframes, hack, hopen, q, hfirst, hready, (bodyBits_eq_zero_iff h hframes hopen now).1 hempty q hfirst⟩

/-- Only the clock's last instant starves a message, and only one whose
deadline is past it. -/
theorem Starved.saturated {c : Connection R} {now : Timestamp} (hs : c.Starved now) (h : c.channels.Intact)
    (hback : c.budget.lastRefill ≤ now) :
    now.nanos = 2 ^ 64 - 1 ∧ ∃ len, c.channels.nextUnsentLen = some len ∧ ¬ c.budget.Unsaturated len := by
  obtain ⟨q, hfirst, hready, hshort⟩ := hs.short
  have hnext : c.channels.nextUnsentLen = some q.2 := by rw [Channels.nextUnsentLen_eq, hfirst]; rfl
  have hsaturated : ¬ (now.nanos < 2 ^ 64 - 1 ∨ c.budget.Unsaturated q.2) := fun hend => by
    have havailable := c.budget.available_of_ready (h.nextUnsentLen_le hnext) hback hend hready
    have hheader := (c.buildHeader now).length_bytes_le
    have hfive : Channels.bytesFor (Channels.frameBits q.1) ≤ messageFrameOverhead := by cases q.1 <;> decide
    omega
  obtain ⟨hlast, hsum⟩ := not_or.1 hsaturated
  exact ⟨by have := now.lt; omega, q.2, hnext, hsum⟩

theorem Builds.isSome_iff {c : Connection R} {now : Timestamp} {r : Connection R × Option (List UInt8)}
    (hbuilds : c.Builds now r) : r.2.isSome = true ↔ ¬ c.Bare now := by
  cases hbuilds with
  | aborted _ hbare => exact iff_of_false Bool.false_ne_true (not_not_intro hbare)
  | built _ _ hbare => exact iff_of_true rfl hbare

/-- Short of the clock's last instant, what a due poll builds is a packet. -/
theorem Builds.isSome {c : Connection R} {now : Timestamp} {r : Connection R × Option (List UInt8)}
    (hbuilds : c.Builds now r) (h : c.channels.Intact) (hdue : c.Owing now) (hback : c.budget.lastRefill ≤ now)
    (hend : now.nanos < 2 ^ 64 - 1) : r.2.isSome = true := by
  refine hbuilds.isSome_iff.2 fun hbare => ?_
  have hlast := (((starved_iff h now).2 ⟨hdue, hbare⟩).saturated h hback).1
  omega

/-- **The transmit judgement is exact**: in every state a connection reaches, a
poll gives a packet exactly when one is owed, unless a message starves. Only at
the clock's last instant does one, and only where the sum of `ready_for` is past
it; everywhere else a message whose deadline has come is within the allowance. -/
theorem poll_exact [Role R] [LawfulRole R] [OwnOps R] {c : Connection R} (h : Lts.Reachable (sys R) c)
    {now : Timestamp} (hback : c.budget.lastRefill ≤ now) (out : Packet) :
    (((c.pollTransmit now out).2.isSome = true ↔ (c.assessed now).Owing now) ↔ ¬ (c.assessed now).Starved now) ∧
      ((c.assessed now).Starved now → now.nanos = 2 ^ 64 - 1 ∧
        ∃ len, c.channels.nextUnsentLen = some len ∧ ¬ (c.assessed now).budget.Unsaturated len) ∧
      ∀ len, c.channels.nextUnsentLen = some len → (c.assessed now).budget.readyFor len ≤ now →
        now.nanos < 2 ^ 64 - 1 ∨ (c.assessed now).budget.Unsaturated len →
        headerMaxLen + tagLen + messageFrameOverhead + len ≤ ((c.assessed now).budget.available now).2 := by
  have hintact := reach_intact h
  have hback' : (c.assessed now).budget.lastRefill ≤ now := by
    rw [assessed, (Budget.assess_level ..).1]
    exact hback
  have hstarved := starved_iff (c := c.assessed now) hintact now
  refine ⟨?_, fun hs => hs.saturated hintact hback', fun len hnext hready hend => ?_⟩
  · rw [hstarved, ← transmitDue_iff]
    rcases pollTransmit_cases hintact now out with ⟨hidle, heq⟩ | ⟨hdue, hbuilds⟩
    · rw [hidle, heq]
      simp
    · rw [hdue, hbuilds.isSome_iff]
      simp
  · exact Budget.available_of_ready _ (hintact.nextUnsentLen_le hnext) hback' hend hready

/-! ## The clock's last instant -/

def lastInstant : Timestamp := ⟨2 ^ 64 - 1, by decide⟩
def beforeLast : Timestamp := ⟨2 ^ 64 - 2, by decide⟩

/-- The slowest rate and the smallest cap a budget admits. -/
def slowest : TransportConfig :=
  ⟨⟨minRate, minPacket, by decide, Nat.le_refl minRate, Nat.le_refl minPacket, minPacket_le_maxDatagram⟩, .default, .default⟩

/-- A server's connection of one channel, made an instant before the last. -/
def lateStart : Connection Server :=
  .accept beforeLast 0 0 ⟨List.replicate nonceLen 0, TicketId.length_zeros⟩ (.v4 0 0) .clear .clear
    orderedOnly slowest

/-- Two tickets spend the whole bucket, and a message waits. -/
def lateCalls : List (Call Server) :=
  [.own (.sendResumeTicket ⟨List.replicate maxBlob 0, by simp⟩), .pollTransmit beforeLast blank,
    .own (.sendResumeTicket ⟨List.replicate maxBlob 0, by simp⟩), .pollTransmit beforeLast blank, .send 0 [0]]

theorem late_reachable : Lts.Reachable (sys Server) (lateCalls.foldl after lateStart) :=
  reach_calls (accept_reachable ..) lateCalls

set_option maxRecDepth 10000 in
/-- An instant before the last, the judgement is exact. -/
theorem poll_exact_late :
    (lateCalls.foldl after lateStart).budget.lastRefill ≤ beforeLast ∧
      (((lateCalls.foldl after lateStart).pollTransmit beforeLast blank).2.isSome = true ↔
        ((lateCalls.foldl after lateStart).assessed beforeLast).Owing beforeLast) := by
  have hback : (lateCalls.foldl after lateStart).budget.lastRefill ≤ beforeLast := by decide +kernel
  obtain ⟨hexact, hstarved, -⟩ := poll_exact late_reachable hback blank
  exact ⟨hback, hexact.2 fun hs => absurd (hstarved hs).1 (by decide)⟩

set_option maxRecDepth 10000 in
/-- **At the last instant it is not**: the message's deadline is past the
clock's end and saturates to it, so the message is due with nothing earned to
send it. -/
theorem saturated_deadline_aborts :
    ∃ c : Connection Server, Lts.Reachable (sys Server) c ∧ ∃ now out, c.budget.lastRefill ≤ now ∧
      (c.assessed now).Owing now ∧ (c.pollTransmit now out).2.isSome = false :=
  ⟨_, late_reachable, lastInstant, blank, by decide +kernel, (transmitDue_iff _ _).1 (by decide +kernel),
    by decide +kernel⟩

end Connection
end HexNet
