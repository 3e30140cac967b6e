/-
Message ids are thirty-two bits and wrap, and `send` does not look whether the
id it takes is still pending. Where it is, two messages have one key; the
packet that carried the second is lost, the loss is applied to the first
message of that key, and the second stays marked in flight with no packet that
carries it. No outcome of it is ever reported: a reliable channel stops behind
it, until some probe requeues the oldest messages marked so.

The run that gets there is four billion turns long, so it is not computed. One
turn (`Turning.turn`) sends the message that waits, sends another, and hears an
acknowledgement of the second alone: the other is released, and the first is
lost and waits again. The invariant between turns is `Posed`, and three calls
are all a run needs: `Posed.send`, `Posed.poll` and `Posed.ack`. Calls are a
second apart, by when any round trip not yet measured has timed out and any
budget has earned what a message takes.
-/
import HexNet.Numbering
import HexNet.Outcomes
import HexNet.Waking
import Mathlib.Algebra.Order.BigOperators.Group.List

namespace HexNet

open Ack (Delivery Notice Outgoing Resolved)

theorem Timestamp.exists_nanos {n : Nat} (h : n < 2 ^ 64) : ∃ t : Timestamp, t.nanos = n := ⟨⟨n, h⟩, rfl⟩

/-! ## The ledger, a packet at a time -/

/-- Sequences less than a ring apart have slots of their own. -/
theorem ringSlot_inj {p q : Nat} (h : ringSlot ledgerSlots p = ringSlot ledgerSlots q) : p % 64 = q % 64 := by
  have hval : p &&& 2 ^ 6 - 1 = q &&& 2 ^ 6 - 1 := congrArg Fin.val h
  rwa [Nat.and_two_pow_sub_one_eq_mod, Nat.and_two_pow_sub_one_eq_mod] at hval

namespace Ack.Delivery

variable {P : Type} {d : Delivery P ledgerSlots} {clock : Timestamp}

/-- A packet sent while whatever is in flight is recent displaces nothing. -/
theorem onSent_flying {q : Nat} (hnear : ∀ p t r, d.Flying p t r → p < q ∧ q < p + 64) (now : Timestamp)
    (record : P) :
    (d.onSent now q (.eliciting record)).2 = [] ∧ (d.onSent now q (.eliciting record)).1.rtt = d.rtt ∧
      ∀ p t r, (d.onSent now q (.eliciting record)).1.Flying p t r ↔
        (p = q ∧ t = now ∧ r = record) ∨ d.Flying p t r := by
  have hslot : ∀ e, d.sent.slots (ringSlot ledgerSlots q) = some e → ∀ p, e.item.state ≠ .inFlight p := by
    rintro ⟨seq, sentAt, st⟩ he p rfl
    have hhome : seq % 64 = q % 64 := ringSlot_inj (d.sent.home _ _ he)
    obtain ⟨hlt, hnext⟩ := hnear seq sentAt p (SequenceBuffer.get_of_slot he)
    omega
  have hput : ∀ p t r, (d.sent.put ⟨q, ⟨now, .inFlight record⟩⟩).get p = some ⟨t, .inFlight r⟩ ↔
      (p = q ∧ t = now ∧ r = record) ∨ d.Flying p t r := by
    intro p t r
    rw [SequenceBuffer.get_put]
    by_cases hp : p = q
    · subst hp
      rw [if_pos rfl]
      refine ⟨fun h => ?_, ?_⟩
      · cases h
        exact .inl ⟨rfl, rfl, rfl⟩
      · rintro (⟨-, rfl, rfl⟩ | hf)
        · rfl
        · exact (Nat.lt_irrefl p (hnear p t r hf).1).elim
    · rw [if_neg hp]
      by_cases hs : ringSlot ledgerSlots p = ringSlot ledgerSlots q
      · rw [if_pos hs]
        refine ⟨fun h => (nomatch h), ?_⟩
        rintro (⟨hp', -⟩ | hf)
        · exact (hp hp').elim
        · have hmod := ringSlot_inj hs
          obtain ⟨hlt, hnext⟩ := hnear p t r hf
          omega
      · rw [if_neg hs]
        exact ⟨.inr, fun h => h.resolve_left fun h => hp h.1⟩
  unfold onSent
  dsimp only [SequenceBuffer.insert]
  split
  next seq sentAt record' hevicted => exact (hslot _ hevicted record' rfl).elim
  · refine ⟨rfl, ?_, fun p t r => ?_⟩
    · obtain ⟨oldest, heq, -⟩ := advanceOldest_spec
        { d with largestSent := some (d.largestSent.elim q fun largest => max largest q)
                 lastEliciting := now, inFlight := d.inFlight + 1, sent := d.sent.put ⟨q, ⟨now, .inFlight record⟩⟩ }
      rw [heq]
    · rw [advanceOldest_flying]
      exact hput p t r

theorem resolveBits_zero (ack n offset : Nat) (d : Delivery P ledgerSlots) :
    resolveBits ack 0 n offset d = (d, [], false) := by
  induction n generalizing offset with
  | zero => rfl
  | succ n ih =>
    have hbit : (0 : BitVec 32).getLsbD offset = false := by simp
    rw [resolveBits, hbit, if_neg Bool.false_ne_true]
    exact ih (offset + 1)

/-- Detection reports losses and nothing else. -/
theorem scanLost_lost (now : Timestamp) (delay : Span) (threshold : Option Nat) (n seq : Nat)
    (d : Delivery P ledgerSlots) :
    ∀ notice ∈ (scanLost now delay threshold n seq d).2, ∃ record, notice.what = .lost record ∧
      (notice.sequence, record) ∈ losses (scanLost now delay threshold n seq d).2 := by
  induction n generalizing seq d with
  | zero => exact fun _ h => absurd h List.not_mem_nil
  | succ n ih =>
    rw [scanLost]
    split
    · dsimp only
      split
      · intro notice hnotice
        rcases List.mem_cons.1 hnotice with rfl | hnotice
        · exact ⟨_, rfl, List.mem_cons_self⟩
        · obtain ⟨record, hwhat, hmem⟩ := ih _ _ notice hnotice
          exact ⟨record, hwhat, List.mem_cons_of_mem _ hmem⟩
      · exact fun _ h => absurd h List.not_mem_nil
    · exact ih _ _

theorem detectLost_lost (d : Delivery P ledgerSlots) (now : Timestamp) :
    ∀ notice ∈ (d.detectLost now).2, ∃ record, notice.what = .lost record ∧
      (notice.sequence, record) ∈ losses (d.detectLost now).2 := by
  unfold detectLost
  split
  · exact fun _ h => (nomatch h)
  · exact scanLost_lost now _ _ _ _ d

theorem mem_losses {ns : List (Notice P)} {q : Nat} {record : P} (h : (q, record) ∈ losses ns) :
    ∃ notice ∈ ns, notice.what = .lost record := by
  obtain ⟨notice, hmem, hsome⟩ := List.mem_filterMap.1 h
  refine ⟨notice, hmem, ?_⟩
  split at hsome
  next lost hwhat =>
    cases hsome
    exact hwhat
  · cases hsome

theorem detectLost_rtt (d : Delivery P ledgerSlots) (now : Timestamp) : (d.detectLost now).1.rtt = d.rtt := by
  obtain ⟨sent, n, oldest, heq⟩ := d.detectLost_shape now
  rw [heq]

/-- An unmeasured round trip is judged by a fixed delay. -/
theorem lossDelay_le (hrtt : d.rtt = .default) : d.lossDelay.nanos ≤ 1000000000 := by
  rw [lossDelay, hrtt]
  decide

/-- The newest packet is acknowledged, with no delay reported: nothing is
measured, and detection follows. -/
theorem acknowledge_newest {q : Nat} {t : Timestamp} {record : P} (h : d.Orderly clock) (hf : d.Flying q t record)
    (hsent : d.largestSent = some q) (now : Timestamp) :
    ∃ probes sent, d.acknowledge now q none 0 =
        { d with sent, probes, inFlight := d.inFlight - 1, largestAcked := some q } ∧
      (d.onAck now q none 0).2 = ⟨q, .acked record⟩ :: ((d.acknowledge now q none 0).detectLost now).2 ∧
      ∀ p t' r, (d.acknowledge now q none 0).Flying p t' r ↔ d.Flying p t' r ∧ p ≠ q := by
  have hget : d.sent.get q = some ⟨t, .inFlight record⟩ := hf
  have hresolve : d.resolve q =
      ({ d with sent := d.sent.set q ⟨t, .acked⟩, inFlight := d.inFlight - 1 }, [⟨q, .acked record⟩], some t) := by
    rw [resolve, hget]
  have hnewest : ∀ d' : Delivery P ledgerSlots, d'.largestAcked = d.largestAcked →
      d'.onNewest now q (some t) none = { d' with largestAcked := some q } := by
    intro d' heq
    unfold onNewest
    split
    · rfl
    next hold =>
      rw [heq] at hold
      cases ha : d.largestAcked with
      | none =>
        rw [ha] at hold
        exact (hold rfl).elim
      | some a =>
        rw [ha] at hold
        obtain ⟨largest, hlargest, hle⟩ := h.acked ha
        obtain rfl := Option.some.inj (hsent.symm.trans hlargest)
        have hge : ¬ a < q := by simpa using hold
        rw [show q = a by omega, ← ha, ← heq]
  have hack : d.acknowledge now q none 0 =
      { d with
        sent := d.sent.set q ⟨t, .acked⟩, inFlight := d.inFlight - 1, largestAcked := some q, probes := .none } := by
    unfold acknowledge
    dsimp only
    rw [hresolve]
    dsimp only
    rw [resolveBits_zero]
    dsimp only
    rw [hnewest { d with sent := d.sent.set q ⟨t, .acked⟩, inFlight := d.inFlight - 1 } rfl]
    rfl
  refine ⟨.none, d.sent.set q ⟨t, .acked⟩, hack, ?_, fun p t' r => ?_⟩
  · unfold onAck acknowledge
    dsimp only
    rw [hresolve]
    dsimp only
    rw [resolveBits_zero]
    rfl
  · rw [hack]
    exact flying_set hget t (fun p (h : State.acked = .inFlight p) => (nomatch h)) (d.inFlight - 1) p t' r

/-- **Once everything else in flight is old**, acknowledging the newest packet
leaves nothing in flight, and reports the rest lost. -/
theorem onAck_newest {q : Nat} {t : Timestamp} {record : P} (h : d.Orderly clock) (hf : d.Flying q t record)
    (hsent : d.largestSent = some q) (hrtt : d.rtt = .default) {now : Timestamp}
    (hold : ∀ p t' r, d.Flying p t' r → p ≠ q → t'.nanos + 1000000000 ≤ now.nanos) :
    (∃ lost, (d.onAck now q none 0).2 = ⟨q, .acked record⟩ :: lost ∧
      (∀ notice ∈ lost, ∃ p t' r, notice.what = .lost r ∧ d.Flying p t' r ∧ p ≠ q) ∧
      ∀ p t' r, d.Flying p t' r → p ≠ q → ∃ notice ∈ lost, notice.what = .lost r) ∧
    (∀ p t' r, ¬ (d.onAck now q none 0).1.Flying p t' r) ∧ (d.onAck now q none 0).1.rtt = .default := by
  obtain ⟨probes, sent, hack, hnotices, hflying⟩ := acknowledge_newest h hf hsent now
  have horderly := h.acknowledge ⟨q, hsent, Nat.le_refl q⟩ now none 0
  obtain ⟨hlost, -, hleft, -⟩ := horderly.detectLost now
  have hlargest : (d.acknowledge now q none 0).largestAcked = some q := by rw [hack]
  have hdelay : (d.acknowledge now q none 0).lossDelay.nanos ≤ 1000000000 :=
    lossDelay_le (by rw [hack]; exact hrtt)
  have hoverdue : ∀ p t' r, (d.acknowledge now q none 0).Flying p t' r →
      (d.acknowledge now q none 0).Overdue now p t' r := by
    intro p t' r hfly
    obtain ⟨hfly', hne⟩ := (hflying p t' r).1 hfly
    obtain ⟨largest, hlargest', hle⟩ := h.sent hfly'
    obtain rfl := Option.some.inj (hsent.symm.trans hlargest')
    have hlate := hold p t' r hfly' hne
    refine ⟨hfly, q, hlargest, by omega, .inr ?_⟩
    rw [Span.le_iff, Timestamp.since_nanos]
    omega
  rw [onAck_fst]
  refine ⟨⟨_, hnotices, fun notice hnotice => ?_, fun p t' r hfly hne => ?_⟩, fun p t' r hfly => ?_, ?_⟩
  · obtain ⟨lost, hwhat, hmem⟩ := detectLost_lost _ now notice hnotice
    obtain ⟨t', hfly, -⟩ := (hlost _ _).1 hmem
    obtain ⟨hfly, hne⟩ := (hflying _ _ _).1 hfly
    exact ⟨_, t', lost, hwhat, hfly, hne⟩
  · exact mem_losses ((hlost p r).2 ⟨t', hoverdue p t' r ((hflying p t' r).2 ⟨hfly, hne⟩)⟩)
  · obtain ⟨hfly, hnot⟩ := (hleft p t' r).1 hfly
    exact hnot (hoverdue p t' r hfly)
  · rw [detectLost_rtt, hack]
    exact hrtt

end Ack.Delivery

/-! ## The queue, a message at a time -/

namespace Channels

/-- A message takes sixteen blocks at most. -/
theorem blocksOf_live_le {c : Channels} (h : c.Intact) :
    Arena.blocksOf (live c.contents c.pending.items) ≤ c.pending.items.length * 16 := by
  have hall : ∀ n ∈ (live c.contents c.pending.items).map fun e => Arena.blocksFor e.2.length, n ≤ 16 := by
    intro n hn
    obtain ⟨e, he, rfl⟩ := List.mem_map.1 hn
    obtain ⟨m, hm, rfl⟩ := List.mem_map.1 he
    have hlen := (h.wired m hm).2
    unfold maxMessage at hlen
    dsimp only
    unfold Arena.blocksFor blockLen
    omega
  have hsum := List.sum_le_card_nsmul _ 16 hall
  simpa [Arena.blocksOf, live] using hsum

/-- A message there is room for is queued behind the others. -/
theorem send_queued {c : Channels} (h : c.Intact) {channel : Nat} (hkind : (c.kind channel).isSome)
    (hfew : c.pending.items.length ≤ 2) :
    ∃ ref, (c.send channel []).1.pending.items = c.pending.items ++ [⟨channel, c.nextIds channel, ref, false⟩] ∧
      (c.send channel []).1.nextIds = Function.update c.nextIds channel (c.nextIds channel).next := by
  have hcount := h.owns.count
  have hblocks := blocksOf_live_le h
  unfold arenaBlocks at hcount
  have hfree : Arena.blocksFor ([] : List UInt8).length ≤ c.sendArena.freeCount := by
    rw [show Arena.blocksFor ([] : List UInt8).length = 1 from rfl]
    omega
  obtain ⟨arena, ref, hstore, -⟩ := Arena.store_owns h.owns (Nat.zero_le _) hfree
  have hfull : c.pending.isFull = false := FixedVec.isFull_eq_false (Nat.lt_of_le_of_lt hfew (by decide))
  obtain ⟨hitems, hpushed⟩ := FixedVec.push_of_not_full hfull ⟨channel, c.nextIds channel, ref, false⟩
  refine ⟨ref, ?_⟩
  unfold send
  rw [if_neg (by decide), if_neg (by simpa [← Option.isSome_iff_ne_none] using hkind), if_neg (by simp [hfull]), hstore]
  dsimp only
  rw [if_pos hpushed]
  exact ⟨hitems, rfl⟩

/-- Where one reliable message waits behind messages in flight, filling a packet
stages that one or nothing. -/
def Staging (olds : List Pending) (m : Pending) (s : Filling) : Prop :=
  (s.staged.items = [] ∧ s.pending.items = olds ++ [m]) ∨
    (s.staged.items = [⟨m.channel, m.id, true⟩] ∧ s.pending.items = olds ++ [{ m with inFlight := true }])

theorem Staging.step {set : ChannelSet} {arena : Arena arenaBlocks} {limit start : Nat} {olds : List Pending}
    {m : Pending} (hset : ∀ channel kind, set.kind channel = some kind → kind.isReliable = true)
    (holds : ∀ p ∈ olds, p.inFlight = true) {s s' : Filling} (h : Staging olds m s)
    (hstep : FillStep set arena limit start s s') : Staging olds m s' := by
  have hskip : ∀ channel, ∀ p ∈ olds, ¬ (p.channel == channel && !p.inFlight) = true := fun channel p hp => by
    simp [holds p hp]
  cases hstep with
  | undo => exact h
  | @stage channel kind x w hkind hfind hfull hrun hlimit =>
    obtain ⟨hpushed, -⟩ := FixedVec.push_of_not_full hfull ⟨channel, x.id, kind.isReliable⟩
    rcases h with ⟨hstaged, hpending⟩ | ⟨-, hpending⟩
    · rw [hpending, List.find?_append, List.find?_eq_none.2 (hskip channel), Option.none_or,
        List.find?_singleton] at hfind
      split at hfind
      next hwaits =>
        obtain rfl := Option.some.inj hfind
        obtain ⟨hchannel, -⟩ : m.channel = channel ∧ m.inFlight = false := by simpa using hwaits
        refine .inr ⟨?_, ?_⟩
        · rw [hpushed, hstaged, hset channel kind hkind, hchannel]
          rfl
        · show s.pending.items.modifyFirst _ _ = _
          rw [hpending]
          exact List.modifyFirst_append (p := fun m : Pending => m.channel == channel && !m.inFlight) _
            (fun p hp => by simp [holds p hp]) hwaits []
      · cases hfind
    · rw [hpending, List.find?_append, List.find?_eq_none.2 (hskip channel), Option.none_or,
        List.find?_singleton] at hfind
      simp at hfind

theorem writeFrames_staging {c : Channels} {olds : List Pending} {m : Pending}
    (hset : ∀ channel kind, c.kind channel = some kind → kind.isReliable = true)
    (holds : ∀ p ∈ olds, p.inFlight = true) (hpending : c.pending.items = olds ++ [m]) (w : BitWriter) (limit : Nat) :
    ((c.writeFrames w .empty limit).2.2.1.items = [] ∧ (c.writeFrames w .empty limit).1.pending.items = olds ++ [m]) ∨
      ((c.writeFrames w .empty limit).2.2.1.items = [⟨m.channel, m.id, true⟩] ∧
        (c.writeFrames w .empty limit).1.pending.items = olds ++ [{ m with inFlight := true }]) :=
  fillChannels_rule (P := Staging olds m) (fun _ _ h hstep => h.step hset holds hstep) _ (.inl ⟨rfl, hpending⟩)

end Channels

namespace Budget

/-- A second earns what any message needs, whatever the rate has come to. -/
theorem second_enough (b : Budget) {now : Timestamp} {len : Nat} (hlen : len ≤ maxMessage)
    (hnow : b.lastRefill.nanos + 1000000000 ≤ now.nanos) : b.readyFor len ≤ now := by
  have hrefill : 8589 ≤ b.refill := by
    have hrate := b.rate_ge
    unfold minRate at hrate
    rw [b.refill_eq, refillOf, Nat.shiftLeft_eq, fractionBits, Nat.le_div_iff_mul_le (by decide)]
    omega
  have hneed : tokensOf (headerMaxLen + tagLen + messageFrameOverhead + len) ≤ 1000000000 * b.refill := by
    rw [tokensOf_eq, messageFrameOverhead_eq]
    unfold headerMaxLen tagLen
    unfold maxMessage at hlen
    omega
  have hearned : tokensOf (headerMaxLen + tagLen + messageFrameOverhead + len) - b.tokens ≤ 1000000000 * b.refill := by
    omega
  have hsmall : tokensOf (headerMaxLen + tagLen + messageFrameOverhead + len) - b.tokens < 2 ^ 64 := by
    rw [tokensOf_eq, messageFrameOverhead_eq]
    unfold headerMaxLen tagLen
    unfold maxMessage at hlen
    omega
  have htime := (timeFor_le_iff b.refill_pos hsmall).2 hearned
  have hlt := now.lt
  refine (b.readyFor_le_iff hlen (by rw [Timestamp.le_iff]; omega) ?_).2 ?_
  · unfold Unsaturated
    omega
  · rw [b.le_available_iff now hlen]
    have hmul : 1000000000 * b.refill ≤ (now.nanos - b.lastRefill.nanos) * b.refill :=
      Nat.mul_le_mul_right _ (by omega)
    omega

end Budget

namespace Connection

variable {R : Type}

/-- Open, with nothing to send but messages. -/
structure Idle (c : Connection R) : Prop where
  open_eq : c.lifecycle = .open
  probes_eq : c.pendingProbes = 0
  control_eq : c.control.owed = .none
  acks_eq : c.acks.owed = .nothing

theorem Idle.controlFrames {c : Connection R} (h : c.Idle) : c.controlFrames = [] := by
  rw [Connection.controlFrames, closeFrames, pingFrames, ControlQueue.frames, h.open_eq, h.probes_eq, h.control_eq]
  rfl

theorem Idle.transmitDue {c : Connection R} (h : c.Idle) {now : Timestamp} {len : Nat}
    (hnext : c.channels.nextUnsentLen = some len) (hready : c.budget.readyFor len ≤ now) :
    c.transmitDue now = true :=
  (transmitDue_iff c now).2 (.of_ready h.controlFrames h.open_eq hnext hready)

theorem fillPacket_staging {c : Connection R} {olds : List Pending} {m : Pending}
    (hset : ∀ channel kind, c.channels.kind channel = some kind → kind.isReliable = true)
    (holds : ∀ p ∈ olds, p.inFlight = true) (hpending : c.channels.pending.items = olds ++ [m])
    (allowance headerLen : Nat) (w : BitWriter) :
    ((c.fillPacket allowance headerLen w).2.2.1.items = [] ∧
        (c.fillPacket allowance headerLen w).1.channels.pending.items = olds ++ [m]) ∨
      ((c.fillPacket allowance headerLen w).2.2.1.items = [⟨m.channel, m.id, true⟩] ∧
        (c.fillPacket allowance headerLen w).1.channels.pending.items = olds ++ [{ m with inFlight := true }]) := by
  have hsame : (c.writeControl w).1.channels = c.channels := by
    unfold writeControl writePing
    dsimp only
    split
    · split <;> rfl
    · rfl
  unfold fillPacket writeData
  dsimp only
  split
  · exact Channels.writeFrames_staging (by rw [hsame]; exact hset) holds (by rw [hsame]; exact hpending) _ _
  · exact .inl ⟨rfl, by rw [hsame]; exact hpending⟩

theorem nextUnsentLen_waiting {c : Channels} (h : c.Intact) {m : Pending} (hm : m ∈ c.pending.items)
    (hwaits : m.inFlight = false) : ∃ len, c.nextUnsentLen = some len := by
  obtain ⟨kind, hkind⟩ := Option.isSome_iff_exists.1 (h.wired m hm).1
  have hlt : m.channel < c.set.len := (List.getElem?_eq_some_iff.1 hkind).1
  refine Option.isSome_iff_exists.1 (List.findSome?_isSome_iff.2 ⟨m.channel, List.mem_range.2 hlt, ?_⟩)
  rw [Option.isSome_map, List.find?_isSome]
  exact ⟨m, hm, by simp [hwaits]⟩

/-- **A poll sends the one message that waits**, and commits it. -/
theorem pollTransmit_one {c : Connection R} (hintact : c.channels.Intact) (hidle : c.Idle) {olds : List Pending}
    {m : Pending} (hset : ∀ channel kind, c.channels.kind channel = some kind → kind.isReliable = true)
    (holds : ∀ p ∈ olds, p.inFlight = true) (hpending : c.channels.pending.items = olds ++ [m])
    (hwaits : m.inFlight = false) {now : Timestamp} (hnow : c.budget.lastRefill.nanos + 1000000000 ≤ now.nanos)
    (hend : now.nanos < 2 ^ 64 - 1) (out : Packet) :
    ∃ (filled : Channels) (staged : PacketMessages) (len : Nat),
      filled = { c.channels with pending := filled.pending } ∧
      filled.pending.items = olds ++ [{ m with inFlight := true }] ∧ staged.items = [⟨m.channel, m.id, true⟩] ∧
      (c.pollTransmit now out).1 = ((c.assessed now).filledWith now filled).transmitted now
        { c.crypto with nextSequence := c.crypto.nextSequence + 1 } staged len true := by
  have hassessed : (c.assessed now).Idle := ⟨hidle.open_eq, hidle.probes_eq, hidle.control_eq, hidle.acks_eq⟩
  have hframes : (c.assessed now).controlFrames = [] := hassessed.controlFrames
  obtain ⟨len, hnext⟩ := nextUnsentLen_waiting hintact (m := m) (by rw [hpending]; simp) hwaits
  have hrefill : (c.assessed now).budget.lastRefill.nanos + 1000000000 ≤ now.nanos := by
    rw [assessed, (Budget.assess_level ..).1]
    exact hnow
  have hready := (c.assessed now).budget.second_enough (hintact.nextUnsentLen_le hnext) hrefill
  have hdue : (c.assessed now).transmitDue now = true := hassessed.transmitDue hnext hready
  have hprepared : ((c.assessed now).prepared now).channels = c.channels := requeued_of_idle hframes
  obtain ⟨filled, staged, new, w, hfill, hfilled⟩ := filling_filled (c := c.assessed now) hintact now out
  have hsome : ((c.assessed now).buildPacket now out).2.isSome = true :=
    (buildPacket_builds (c := c.assessed now) hintact now out).isSome hintact ((transmitDue_iff _ _).1 hdue)
      (by rw [Timestamp.le_iff]; omega) hend
  -- it carries something, and only one message waits
  have helicits : (c.assessed now).elicits new = true := by
    cases h : (c.assessed now).elicits new with
    | true => rfl
    | false =>
      have hack : (c.assessed now).acks.due now = false := by
        rw [Acks.due, Acks.deadline, hassessed.acks_eq]
        rfl
      rw [buildPacket_eq hfill, h, hack, if_pos (by decide)] at hsome
      cases hsome
  have hnew : new ≠ [] := by
    rintro rfl
    rw [elicits, hframes] at helicits
    cases helicits
  have hstaged : staged.items = new.map Prod.fst := by simpa using hfilled.carrying.staged_eq
  have hone := fillPacket_staging (c := (c.assessed now).prepared now) (by rw [hprepared]; exact hset) holds
    (by rw [hprepared]; exact hpending) ((c.assessed now).budget.available now).2
    (((c.assessed now).buildHeader now).encode out.bytes).2
    (bodyWriter (((c.assessed now).buildHeader now).encode out.bytes).1
      (((c.assessed now).buildHeader now).encode out.bytes).2)
  have hfill' : ((c.assessed now).prepared now).fillPacket ((c.assessed now).budget.available now).2
      (((c.assessed now).buildHeader now).encode out.bytes).2
      (bodyWriter (((c.assessed now).buildHeader now).encode out.bytes).1
        (((c.assessed now).buildHeader now).encode out.bytes).2) =
      ((c.assessed now).filledWith now filled, w, staged, (c.assessed now).elicits new) := hfill
  rw [hfill'] at hone
  rcases hone with ⟨hnone, -⟩ | ⟨hitems, hmarked⟩
  · rw [hnone] at hstaged
    exact (hnew (List.map_eq_nil_iff.1 hstaged.symm)).elim
  · obtain ⟨sealed, -, hseal⟩ := sealPacket_spec ((c.assessed now).filledWith now filled) now
      ((c.assessed now).buildHeader now) out hfilled.carrying.holds hfilled.carrying.len_eq staged
      ((c.assessed now).elicits new)
    refine ⟨filled, staged, (((c.assessed now).buildHeader now).bytes ++ (sealed.1 ++ sealed.2)).length, ?_, hmarked,
      hitems, ?_⟩
    · have heq := hfilled.filled_eq
      rwa [hprepared] at heq
    · unfold pollTransmit
      dsimp only
      rw [if_pos hdue, buildPacket_eq hfill, helicits, if_neg (by simp), ← helicits, hseal, helicits]
      rfl

/-- What follows a packet that was sealed, where the ledger has nothing to
report. -/
theorem transmitted_quiet {c : Connection R} (hopen : c.lifecycle = .open) {now : Timestamp} (crypto : PacketCrypto)
    (staged : PacketMessages) (len : Nat)
    (hquiet : (c.delivery.onSent now c.crypto.nextSequence (.eliciting (c.channels.onPacketSent staged).2)).2 = []) :
    c.transmitted now crypto staged len true =
      { c with
        crypto
        channels := (c.channels.onPacketSent staged).1
        delivery := (c.delivery.onSent now c.crypto.nextSequence (.eliciting (c.channels.onPacketSent staged).2)).1
        budget := c.budget.onSent len true
        acks := c.acks.sent now true } := by
  have hledger : c.committed now crypto staged true =
      { c with
        crypto
        channels := (c.channels.onPacketSent staged).1
        delivery :=
          (c.delivery.onSent now c.crypto.nextSequence (.eliciting (c.channels.onPacketSent staged).2)).1 } := by
    unfold committed ledger applyNotices
    dsimp only
    rw [if_pos rfl, hquiet]
    rfl
  rw [transmitted, hledger]
  dsimp only
  rw [noticeSent, hopen]

/-- A packet lost that carried the head of the queue unmarks the head, and no
other message of its key. -/
theorem foldl_lost_head {ns : List (Notice PacketRecord)} {s : Channels × Budget} {first : Pending}
    {rest : List Pending} (hs : s.1.pending.items = first :: rest)
    (hns : ∀ n ∈ ns, ∃ record, n.what = .lost record ∧ record.items = [first.key]) (hsome : ns ≠ []) :
    (ns.foldl (fun s notice => applyResolution s notice.what) s).1.pending.items =
      { first with inFlight := false } :: rest := by
  induction ns generalizing s first with
  | nil => exact (hsome rfl).elim
  | cons n ns ih =>
    obtain ⟨record, hwhat, hrecord⟩ := hns n List.mem_cons_self
    have hfirst : (applyResolution s n.what).1.pending.items = { first with inFlight := false } :: rest := by
      rw [hwhat]
      show (s.1.onLost record).pending.items = _
      rw [Channels.onLost, hrecord]
      show s.1.pending.items.modifyFirst _ _ = _
      rw [hs, List.modifyFirst, if_pos (by simp)]
    rw [List.foldl_cons]
    cases ns with
    | nil => exact hfirst
    | cons n' ns =>
      have hrest := ih hfirst (fun x hx => hns x (List.mem_cons_of_mem n hx)) (List.cons_ne_nil n' ns)
      exact hrest

/-- What the ledger reports as the newest packet is acknowledged and the others
are lost, where each of those carried the head of the queue. -/
theorem ledger_acked_last {c : Connection R} {d : Delivery PacketRecord ledgerSlots} {q : Nat} {record : PacketRecord}
    {lost : List (Notice PacketRecord)} {first m : Pending} {rest : List Pending}
    (hpending : c.channels.pending.items = first :: rest ++ [m]) (hrecord : record.items = [m.key])
    (hkeys : ∀ p ∈ first :: rest, p.key ≠ m.key)
    (hlost : ∀ n ∈ lost, ∃ record, n.what = .lost record ∧ record.items = [first.key]) (hsome : lost ≠ []) :
    (c.ledger (d, ⟨q, .acked record⟩ :: lost)).channels.pending.items = { first with inFlight := false } :: rest := by
  have hreleased : (c.channels.onAcked record).pending.items = first :: rest := by
    rw [Channels.onAcked, hrecord]
    show (c.channels.releasePending m.key).pending.items = _
    have hskip : ∀ p ∈ first :: rest, ¬ (p.key == m.key) = true := fun p hp => by simpa using hkeys p hp
    have hfind : c.channels.pending.items.find? (fun p => p.key == m.key) = some m := by
      rw [hpending, List.find?_append, List.find?_eq_none.2 hskip, Option.none_or, List.find?_singleton,
        if_pos (by simp)]
    rw [Channels.releasePending, hfind]
    show c.channels.pending.items.eraseP _ = _
    rw [hpending, List.eraseP_append_right _ hskip]
    simp
  exact foldl_lost_head (s := (c.channels.onAcked record, c.budget)) hreleased hlost hsome

end Connection

namespace PacketCrypto

/-- The packet after the newest one opens. -/
theorem decrypt_next {c : PacketCrypto} {seq : Nat} {datagram body : List UInt8} {header : Header}
    {sealed : List UInt8 × List UInt8} (hseq : seq = c.replay.newest.getD 0 + 1) (hlt : seq < 2 ^ 64)
    (h : c.rx.Seals seq datagram header body sealed) :
    ∃ inOrder, c.decrypt datagram = .ok ({ c with replay := c.replay.insert seq }, ⟨seq, header, body, inOrder⟩) := by
  have hcheck : c.replay.check seq = .ok () := by
    unfold ReceiveWindow.check
    split
    · rfl
    next newest hnewest =>
      rw [hnewest, Option.getD_some] at hseq
      rw [if_pos (by omega)]
  have hopen := c.rx.inner.decrypt_encrypt _ _ _ _ h.encrypt
  rw [decrypt_sealed h, Sequence.resolve_near (by omega) hlt (by omega) (by omega)]
  dsimp only
  rw [hcheck]
  dsimp only
  rw [hopen]
  exact ⟨_, rfl⟩

/-- An acknowledgement of the last packet sent resolves to it. -/
theorem resolveAck_newest {c : PacketCrypto} {q : Nat} (hq : q + 1 = c.nextSequence) (hpos : 0 < q) (hlt : q < 2 ^ 64) :
    c.resolveAck (Sequence.toWire q) = some q := by
  have hsub : Sequence.checkedSub c.nextSequence 1 = some q := by
    rw [← hq, Sequence.checkedSub, Sequence.ofCounter]
    simp [Nat.ne_of_gt hpos]
  have hnear : Sequence.resolve (some q) (Sequence.toWire q) = some q :=
    Sequence.resolve_near hpos hlt (by simp) (by simp)
  rw [resolveAck, hsub, Option.bind_some, hnear]
  simp

theorem insert_newest {w : ReceiveWindow} {seq : Nat} (hseq : seq = w.newest.getD 0 + 1) :
    (w.insert seq).newest = some seq := by
  unfold ReceiveWindow.insert
  split
  · rfl
  next newest hnewest =>
    rw [hnewest, Option.getD_some] at hseq
    rw [if_neg (by omega)]

end PacketCrypto

/-! ## A connection that only ever queues, sends and hears -/

namespace Connection

/-- Idle but for its messages, after `k` seconds in which it sent and heard at
most a packet a second. -/
structure Posed (c : Connection Client) (k : Nat) (clock : Timestamp) : Prop extends Idle c, Timely c clock where
  reached : Lts.Reachable (sys Client) c
  set_eq : c.channels.set = orderedOnly
  rtt_eq : c.delivery.rtt = .default
  clock_eq : clock.nanos = k * 1000000000
  sequence_le : c.crypto.nextSequence ≤ k + 1
  replay_le : c.crypto.replay.newest.getD 0 ≤ k

variable {c : Connection Client} {k : Nat} {clock : Timestamp}

theorem Posed.kind_zero (h : c.Posed k clock) : c.channels.kind 0 = some .reliableOrdered := by
  rw [Channels.kind, h.set_eq]
  rfl

theorem Posed.reliable (h : c.Posed k clock) : ∀ channel kind, c.channels.kind channel = some kind →
    kind.isReliable = true := by
  intro channel kind hkind
  rw [Channels.kind, h.set_eq] at hkind
  cases channel with
  | zero =>
    cases hkind
    rfl
  | succ channel => cases hkind

theorem Posed.send (h : c.Posed k clock) (hfew : c.channels.pending.items.length ≤ 2) :
    (c.after (.send 0 [])).Posed k clock ∧ (c.after (.send 0 [])).delivery = c.delivery ∧
      (c.after (.send 0 [])).crypto = c.crypto ∧
      (c.after (.send 0 [])).channels.nextIds 0 = (c.channels.nextIds 0).next ∧
      ∃ ref, (c.after (.send 0 [])).channels.pending.items =
        c.channels.pending.items ++ [⟨0, c.channels.nextIds 0, ref, false⟩] := by
  have hkind : (c.channels.kind 0).isSome := Option.isSome_iff_exists.2 ⟨_, h.kind_zero⟩
  obtain ⟨ref, hitems, hnext⟩ := Channels.send_queued h.intact hkind hfew
  have hset : (c.channels.send 0 []).1.set = orderedOnly := (Channels.send_set ..).trans h.set_eq
  have htimely := h.toTimely.step (c.after_does (.send 0 [])) fun t ht => (nomatch ht)
  refine ⟨⟨⟨h.open_eq, h.probes_eq, h.control_eq, h.acks_eq⟩, htimely, h.reached.step trivial rfl, hset, h.rtt_eq,
    h.clock_eq, h.sequence_le, h.replay_le⟩, rfl, rfl, ?_, ref, hitems⟩
  show (c.channels.send 0 []).1.nextIds 0 = _
  rw [hnext, Function.update_self]

/-- A poll a second later sends the one message that waits. -/
theorem Posed.poll (h : c.Posed k clock) {olds : List Pending} {m : Pending} (holds : ∀ p ∈ olds, p.inFlight = true)
    (hpending : c.channels.pending.items = olds ++ [m]) (hwaits : m.inFlight = false)
    (hnear : ∀ p t r, c.delivery.Flying p t r → c.crypto.nextSequence < p + 64) {now : Timestamp}
    (hnow : now.nanos = (k + 1) * 1000000000) :
    (c.after (.pollTransmit now blank)).Posed (k + 1) now ∧
      (c.after (.pollTransmit now blank)).channels.nextIds = c.channels.nextIds ∧
      (c.after (.pollTransmit now blank)).channels.pending.items = olds ++ [{ m with inFlight := true }] ∧
      (c.after (.pollTransmit now blank)).crypto = { c.crypto with nextSequence := c.crypto.nextSequence + 1 } ∧
      ∃ record : PacketRecord, record.items = [m.key] ∧
        ∀ p t r, (c.after (.pollTransmit now blank)).delivery.Flying p t r ↔
          (p = c.crypto.nextSequence ∧ t = now ∧ r = record) ∨ c.delivery.Flying p t r := by
  have hclock := h.clock_eq
  have hrefill := h.refilled
  rw [Timestamp.le_iff] at hrefill
  have hlt := now.lt
  have hsecond : c.budget.lastRefill.nanos + 1000000000 ≤ now.nanos := by omega
  obtain ⟨filled, staged, len, hfilled, hmarked, hstaged, hpoll⟩ := pollTransmit_one h.intact h.toIdle h.reliable holds
    hpending hwaits hsecond (by omega) blank
  have hrecord : (filled.onPacketSent staged).1 = filled ∧ (filled.onPacketSent staged).2.items = [m.key] := by
    rw [Channels.onPacketSent, hstaged]
    exact ⟨rfl, rfl⟩
  have hbefore : ∀ p t r, c.delivery.Flying p t r → p < c.crypto.nextSequence ∧ c.crypto.nextSequence < p + 64 := by
    intro p t r hf
    obtain ⟨largest, hlargest, hle⟩ := h.orderly.sent hf
    have := h.numbered.largest hlargest
    exact ⟨by omega, hnear p t r hf⟩
  have hlater : clock ≤ now := by
    rw [Timestamp.le_iff]
    omega
  obtain ⟨hquiet, hrtt, hflying⟩ := Delivery.onSent_flying hbefore now (filled.onPacketSent staged).2
  have htimely := h.toTimely.step (c.after_does (.pollTransmit now blank)) fun t ht => Option.some.inj ht ▸ hlater
  have hafter : c.after (.pollTransmit now blank) =
      { c with
        crypto := { c.crypto with nextSequence := c.crypto.nextSequence + 1 }
        channels := filled
        delivery := (c.delivery.onSent now c.crypto.nextSequence (.eliciting (filled.onPacketSent staged).2)).1
        budget := ((c.assessed now).budget.available now).1.onSent len true
        acks := c.acks.sent now true
        control := c.control.drained
        pendingProbes := c.pendingProbes - 1 } := by
    refine (hpoll.trans (transmitted_quiet (c := (c.assessed now).filledWith now filled) h.open_eq _ staged len
      hquiet)).trans ?_
    unfold filledWith controlled prepared assessed
    dsimp only
    rw [hrecord.1]
  have hreached : Lts.Reachable (sys Client) (c.after (.pollTransmit now blank)) := h.reached.step trivial rfl
  rw [hafter] at htimely hreached ⊢
  refine ⟨⟨⟨h.open_eq, ?_, rfl, rfl⟩, htimely, hreached, ?_, hrtt.trans h.rtt_eq, hnow, Nat.succ_le_succ h.sequence_le,
    Nat.le_succ_of_le h.replay_le⟩, ?_, hmarked, rfl, _, hrecord.2, hflying⟩
  · show c.pendingProbes - 1 = 0
    rw [h.probes_eq]
  · rw [hfilled]
    exact h.set_eq
  · rw [hfilled]

/-- The header of the peer's next packet where it acknowledges `q`, held for
longer than the field has room for. -/
def ackHeader {R : Type} (c : Connection R) (q : Nat) : Header :=
  ⟨.payload, c.id, Sequence.toWire (c.crypto.replay.newest.getD 0 + 1), some (Sequence.toWire q), 255, 0⟩

theorem handleAck_resolved {R : Type} {c : Connection R} {header : Header} {q : Nat}
    (h : header.ack.bind c.crypto.resolveAck = some q) (now : Timestamp) :
    c.handleAck now header = c.ledger (c.delivery.onAck now q (Ack.decodeAckDelay header.ackDelay) header.ackBits) := by
  rw [handleAck, h]

/-- A packet with nothing in its body is its acknowledgement. -/
theorem handleOpened_empty {R : Type} [Role R] (c : Connection R) (now : Timestamp) (seq : Nat) (header : Header)
    (inOrder : Bool) :
    (c.handleOpened now c.addr ⟨seq, header, [], inOrder⟩).1 = c.handleAck now header := by
  have haddr : (c.handleAck now header).addr = c.addr := by
    unfold handleAck
    split <;> rfl
  unfold handleOpened
  exact if_neg fun h => h haddr.symm

/-- A packet that acknowledges the last one sent and carries nothing. -/
theorem handleDatagram_ack {R : Type} [Role R] {c : Connection R} (hopen : c.lifecycle = .open) {q : Nat}
    (hq : q + 1 = c.crypto.nextSequence) (hpos : 0 < q) (hlt : q < 2 ^ 64)
    (hheard : c.crypto.replay.newest.getD 0 + 1 < 2 ^ 64) (now : Timestamp) :
    ∃ datagram, (c.handleDatagram now c.addr datagram).1 =
      ledger { c with
        crypto := { c.crypto with replay := c.crypto.replay.insert (c.crypto.replay.newest.getD 0 + 1) }
        lastReceived := now } (c.delivery.onAck now q none 0) := by
  obtain ⟨sealed, hsealed⟩ := Option.isSome_iff_exists.1 (c.crypto.rx.inner.encrypt_isSome
    (c.crypto.rx.nonce (c.crypto.replay.newest.getD 0 + 1)) (c.ackHeader q).bytes [] (by decide))
  have hseals : c.crypto.rx.Seals (c.crypto.replay.newest.getD 0 + 1) ((c.ackHeader q).bytes ++ (sealed.1 ++ sealed.2))
      (c.ackHeader q) [] sealed :=
    ⟨fun h => (Option.some_ne_none _ h).elim, rfl, rfl, hsealed, rfl⟩
  obtain ⟨inOrder, hdecrypt⟩ := PacketCrypto.decrypt_next rfl hheard hseals
  have hresolve : ((c.ackHeader q).ack.bind c.crypto.resolveAck) = some q := PacketCrypto.resolveAck_newest hq hpos hlt
  refine ⟨(c.ackHeader q).bytes ++ (sealed.1 ++ sealed.2), ?_⟩
  rw [handleDatagram, if_neg (by rw [hopen]; nofun), hdecrypt]
  refine (handleOpened_empty ..).trans ?_
  apply handleAck_resolved
  exact hresolve

/-- A packet that acknowledges the last one sent and carries nothing leaves what
was sent earlier lost. -/
theorem Posed.ack (h : c.Posed k clock) {q : Nat} {t : Timestamp} {record : PacketRecord} {first m : Pending}
    {rest : List Pending} (hpending : c.channels.pending.items = first :: rest ++ [m])
    (hkeys : ∀ p ∈ first :: rest, p.key ≠ m.key) (hq : q + 1 = c.crypto.nextSequence)
    (hf : c.delivery.Flying q t record) (hrecord : record.items = [m.key])
    (hold : ∀ p t' r, c.delivery.Flying p t' r → p ≠ q → t'.nanos + 1000000000 ≤ clock.nanos ∧ r.items = [first.key])
    (hsome : ∃ p t' r, c.delivery.Flying p t' r ∧ p ≠ q) (hheard : c.crypto.replay.newest.getD 0 < k) :
    ∃ datagram, (c.after (.handleDatagram clock c.addr datagram)).Posed k clock ∧
      (c.after (.handleDatagram clock c.addr datagram)).channels.nextIds = c.channels.nextIds ∧
      (c.after (.handleDatagram clock c.addr datagram)).channels.pending.items =
        { first with inFlight := false } :: rest ∧
      (∀ p t r, ¬ (c.after (.handleDatagram clock c.addr datagram)).delivery.Flying p t r) ∧
      (c.after (.handleDatagram clock c.addr datagram)).crypto.replay.newest.getD 0 =
        c.crypto.replay.newest.getD 0 + 1 := by
  have hclock := h.clock_eq
  have hlt := clock.lt
  have hle := h.sequence_le
  have hpos : 0 < q := Nat.lt_of_lt_of_le h.orderly.positive (h.orderly.oldest hf)
  obtain ⟨largest, hlargest, -⟩ := h.orderly.sent hf
  obtain rfl : largest = q := by
    have := h.numbered.largest hlargest
    omega
  obtain ⟨⟨lost, hnotices, hlost, hall⟩, hflying, hrtt⟩ :=
    Delivery.onAck_newest h.orderly hf hlargest h.rtt_eq fun p t' r hfly hne => (hold p t' r hfly hne).1
  obtain ⟨datagram, hafter⟩ := handleDatagram_ack h.open_eq hq hpos (by omega) (by omega) clock
  have htimely := h.toTimely.step (c.after_does (.handleDatagram clock c.addr datagram)) fun t ht =>
    Option.some.inj ht ▸ Nat.le_refl _
  have hreached : Lts.Reachable (sys Client) (c.after (.handleDatagram clock c.addr datagram)) :=
    h.reached.step trivial rfl
  refine ⟨datagram, ?_⟩
  rw [show c.after (.handleDatagram clock c.addr datagram) = _ from hafter] at htimely hreached ⊢
  obtain ⟨hsettles, -⟩ := ledger_settles
    { c with
      crypto := { c.crypto with replay := c.crypto.replay.insert (c.crypto.replay.newest.getD 0 + 1) }
      lastReceived := clock } (c.delivery.onAck clock largest none 0)
  have hnewest := PacketCrypto.insert_newest (w := c.crypto.replay) rfl
  refine ⟨⟨⟨h.open_eq, h.probes_eq, h.control_eq, h.acks_eq⟩, htimely, hreached, hsettles.set_eq.trans h.set_eq, hrtt,
    hclock, hle, ?_⟩, hsettles.next_eq, ?_, hflying, ?_⟩
  · show (c.crypto.replay.insert _).newest.getD 0 ≤ k
    rw [hnewest]
    exact hheard
  · rw [show c.delivery.onAck clock largest none 0 = (_, _ :: lost) from Prod.ext rfl hnotices]
    refine ledger_acked_last (c := { c with
      crypto := { c.crypto with replay := c.crypto.replay.insert (c.crypto.replay.newest.getD 0 + 1) }
      lastReceived := clock }) hpending hrecord hkeys (fun n hn => ?_) ?_
    · obtain ⟨p, t', r, hwhat, hfly, hne⟩ := hlost n hn
      exact ⟨r, hwhat, (hold p t' r hfly hne).2⟩
    · obtain ⟨p, t', r, hfly, hne⟩ := hsome
      obtain ⟨n, hn, -⟩ := hall p t' r hfly hne
      exact List.ne_nil_of_mem hn
  · show (c.crypto.replay.insert _).newest.getD 0 = _
    rw [hnewest]
    rfl

/-- A message is queued, and sent a second later. -/
theorem Posed.sendPoll (h : c.Posed k clock) (hfew : c.channels.pending.items.length ≤ 2)
    (hall : ∀ p ∈ c.channels.pending.items, p.inFlight = true)
    (hnear : ∀ p t r, c.delivery.Flying p t r → c.crypto.nextSequence < p + 64) {now : Timestamp}
    (hnow : now.nanos = (k + 1) * 1000000000) :
    ((c.after (.send 0 [])).after (.pollTransmit now blank)).Posed (k + 1) now ∧
      ((c.after (.send 0 [])).after (.pollTransmit now blank)).channels.nextIds 0 = (c.channels.nextIds 0).next ∧
      ((c.after (.send 0 [])).after (.pollTransmit now blank)).crypto =
        { c.crypto with nextSequence := c.crypto.nextSequence + 1 } ∧
      ∃ ref, ∃ record : PacketRecord, record.items = [⟨0, c.channels.nextIds 0⟩] ∧
        ((c.after (.send 0 [])).after (.pollTransmit now blank)).channels.pending.items =
          c.channels.pending.items ++ [⟨0, c.channels.nextIds 0, ref, true⟩] ∧
        ∀ p t r, ((c.after (.send 0 [])).after (.pollTransmit now blank)).delivery.Flying p t r ↔
          (p = c.crypto.nextSequence ∧ t = now ∧ r = record) ∨ c.delivery.Flying p t r := by
  obtain ⟨hposed, hdelivery, hcrypto, hnext, ref, hitems⟩ := h.send hfew
  obtain ⟨hsent, hids, hmarked, hsequence, record, hrecord, hflying⟩ :=
    hposed.poll hall hitems rfl (by rw [hdelivery, hcrypto]; exact hnear) hnow
  rw [hcrypto] at hsequence
  rw [hdelivery, hcrypto] at hflying
  exact ⟨hsent, by rw [hids, hnext], hsequence, ref, record, hrecord, hmarked, hflying⟩

/-- One message, waiting to be sent again after all the others, the next of
which is number `n`. -/
structure Turning (c : Connection Client) (n k : Nat) (clock : Timestamp) : Prop extends Posed c k clock where
  waiting : ∃ ref, c.channels.pending.items = [⟨0, 0, ref, false⟩]
  grounded : ∀ p t r, ¬ c.delivery.Flying p t r
  next_eq : c.channels.nextIds 0 = UInt32.ofNat n
  heard : 2 * c.crypto.replay.newest.getD 0 ≤ k

/-- Both the message that waits and message `n` are in flight, in a packet
each. -/
structure Paired (c : Connection Client) (n k : Nat) (earlier clock : Timestamp) (q : Nat) (a b : PacketRecord) : Prop
    extends Posed c (k + 2) clock where
  earlier_eq : earlier.nanos = (k + 1) * 1000000000
  queued : ∃ ref ref', c.channels.pending.items = [⟨0, 0, ref, true⟩] ++ [⟨0, UInt32.ofNat n, ref', true⟩]
  next_eq : c.channels.nextIds 0 = UInt32.ofNat (n + 1)
  heard : 2 * c.crypto.replay.newest.getD 0 ≤ k
  sequence_eq : c.crypto.nextSequence = q + 2
  first_items : a.items = [⟨0, 0⟩]
  second_items : b.items = [⟨0, UInt32.ofNat n⟩]
  flying_iff : ∀ p t r, c.delivery.Flying p t r ↔
    (p = q + 1 ∧ t = clock ∧ r = b) ∨ (p = q ∧ t = earlier ∧ r = a)

theorem Turning.pair {n : Nat} (h : c.Turning n k clock) (hk : (k + 2) * 1000000000 < 2 ^ 64) :
    ∃ c' earlier now q a b, Paired c' n k earlier now q a b := by
  obtain ⟨ref, hwaiting⟩ := h.waiting
  have hlt : (k + 1) * 1000000000 < 2 ^ 64 := Nat.lt_of_le_of_lt (Nat.mul_le_mul_right _ (Nat.le_succ _)) hk
  obtain ⟨earlier, hearlier⟩ := Timestamp.exists_nanos hlt
  obtain ⟨now, hnow⟩ := Timestamp.exists_nanos hk
  have hnone : ∀ p ∈ ([] : List Pending), p.inFlight = true := fun p hp => (List.not_mem_nil hp).elim
  obtain ⟨hfirst, hids, hmarked, hsequence, a, ha, hflying⟩ :=
    h.poll hnone hwaiting rfl (fun p t r hf => (h.grounded p t r hf).elim) hearlier
  have hnear : ∀ p t r, (c.after (.pollTransmit earlier blank)).delivery.Flying p t r →
      (c.after (.pollTransmit earlier blank)).crypto.nextSequence < p + 64 := by
    intro p t r hf
    obtain ⟨rfl, -⟩ := ((hflying p t r).1 hf).resolve_right (h.grounded p t r)
    rw [hsequence]
    exact Nat.add_lt_add_left (by decide) _
  obtain ⟨hsecond, hnext, hsequence', ref', b, hb, hqueued, hflying'⟩ :=
    hfirst.sendPoll (by rw [hmarked]; exact Nat.le_succ 1) (by rw [hmarked]; simp) hnear hnow
  rw [hids, h.next_eq] at hb hqueued hnext
  refine ⟨_, earlier, now, c.crypto.nextSequence, a, b, hsecond, hearlier, ⟨ref, ref', ?_⟩, ?_, ?_, ?_, ha, hb,
    fun p t r => ?_⟩
  · rw [hqueued, hmarked]
    rfl
  · rw [hnext]
    exact (UInt32.ofNat_add n 1).symm
  · rw [hsequence', hsequence]
    exact h.heard
  · rw [hsequence', hsequence]
  · rw [hflying', hflying, hsequence, or_iff_left (h.grounded p t r)]

/-- **A turn**: message `n` is acknowledged and the one that waits is lost, and
waits again. -/
theorem Turning.turn {n : Nat} (h : c.Turning n k clock) (hn : UInt32.ofNat n ≠ 0)
    (hk : (k + 2) * 1000000000 < 2 ^ 64) : ∃ c' clock', Turning c' (n + 1) (k + 2) clock' := by
  obtain ⟨c', earlier, now, q, a, b, hpaired⟩ := h.pair hk
  obtain ⟨ref, ref', hqueued⟩ := hpaired.queued
  have hclock := hpaired.clock_eq
  have hearlier := hpaired.earlier_eq
  have hheard := hpaired.heard
  have hold : ∀ p t r, c'.delivery.Flying p t r → p ≠ q + 1 →
      t.nanos + 1000000000 ≤ now.nanos ∧ r.items = [⟨0, 0⟩] := by
    intro p t r hf hne
    obtain ⟨-, rfl, rfl⟩ := ((hpaired.flying_iff p t r).1 hf).resolve_left fun h => hne h.1
    exact ⟨by omega, hpaired.first_items⟩
  have hlost : c'.delivery.Flying q earlier a := (hpaired.flying_iff _ _ _).2 (.inr ⟨rfl, rfl, rfl⟩)
  have hlast : c'.delivery.Flying (q + 1) now b := (hpaired.flying_iff _ _ _).2 (.inl ⟨rfl, rfl, rfl⟩)
  have hkeys : ∀ p ∈ [(⟨0, 0, ref, true⟩ : Pending)], p.key ≠ ⟨0, UInt32.ofNat n⟩ := by
    intro p hp heq
    obtain rfl := List.mem_singleton.1 hp
    exact hn (congrArg MessageKey.id heq).symm
  obtain ⟨datagram, hposed, hnext, hpending, hgrounded, hnewest⟩ := hpaired.ack hqueued hkeys
    hpaired.sequence_eq.symm hlast hpaired.second_items hold ⟨q, earlier, a, hlost, Nat.ne_of_lt (Nat.lt_succ_self q)⟩
    (by omega)
  exact ⟨_, now, hposed, ⟨ref, hpending⟩, hgrounded, (congrFun hnext 0).trans hpaired.next_eq, by rw [hnewest]; omega⟩

theorem joining_turning : ∃ clock, Turning (joining.after (.send 0 [])) 1 0 clock := by
  have hposed : joining.Posed 0 .zero :=
    ⟨⟨rfl, rfl, rfl, rfl⟩, new_timely .., joining_reach, rfl, rfl, rfl, Nat.le_refl _, Nat.le_refl _⟩
  obtain ⟨hsent, hdelivery, hcrypto, hnext, ref, hitems⟩ := hposed.send (Nat.zero_le _)
  refine ⟨_, hsent, ⟨ref, hitems⟩, fun p t r hf => ?_, hnext, ?_⟩
  · rw [hdelivery] at hf
    cases hf
  · rw [hcrypto]
    exact Nat.le_refl _

/-- As many turns as there are ids. -/
theorem turns (n : Nat) (hn : n < 2 ^ 32) : ∃ c clock, Turning c (n + 1) (2 * n) clock := by
  induction n with
  | zero => exact ⟨_, joining_turning⟩
  | succ n ih =>
    obtain ⟨c, clock, h⟩ := ih (by omega)
    refine h.turn (fun hzero => ?_) (by omega)
    have := congrArg UInt32.toNat hzero
    rw [UInt32.toNat_ofNat_of_lt' (by simpa using hn)] at this
    exact Nat.succ_ne_zero n this

/-- Where message `n` has the key of the one that waits, both packets are lost
and only the first of the two is sent again. -/
theorem Paired.stalls {n q : Nat} {earlier : Timestamp} {a b : PacketRecord} (h : c.Paired n k earlier clock q a b)
    (hn : UInt32.ofNat n = 0) (hk : (k + 3) * 1000000000 < 2 ^ 64) :
    ∃ c', Lts.Reachable (sys Client) c' ∧ ¬ c'.Accounted := by
  obtain ⟨ref, ref', hqueued⟩ := h.queued
  have hone : UInt32.ofNat (n + 1) = 1 := by
    rw [UInt32.ofNat_add, hn]
    rfl
  obtain ⟨later, hlater⟩ := Timestamp.exists_nanos hk
  have hheard := h.heard
  have hclock := h.clock_eq
  have hearlier := h.earlier_eq
  have hlast := h.second_items
  have hnear : ∀ p t r, c.delivery.Flying p t r → c.crypto.nextSequence < p + 64 := by
    intro p t r hf
    rw [h.sequence_eq]
    rcases (h.flying_iff p t r).1 hf with ⟨rfl, -⟩ | ⟨rfl, -⟩ <;> omega
  obtain ⟨hthird, -, hsequence, ref'', record, hrecord, hitems, hflying⟩ :=
    h.sendPoll (by rw [hqueued]; exact Nat.le_refl 2) (by rw [hqueued]; simp) hnear hlater
  rw [h.next_eq, hone] at hrecord hitems
  rw [hqueued, hn] at hitems
  rw [hn] at hlast
  have hold : ∀ p t r, ((c.after (.send 0 [])).after (.pollTransmit later blank)).delivery.Flying p t r → p ≠ q + 2 →
      t.nanos + 1000000000 ≤ later.nanos ∧ r.items = [⟨0, 0⟩] := by
    intro p t r hf hne
    rw [hflying, h.sequence_eq, h.flying_iff] at hf
    rcases hf with ⟨hp, -⟩ | ⟨-, rfl, rfl⟩ | ⟨-, rfl, rfl⟩
    · exact (hne hp).elim
    · exact ⟨by omega, hlast⟩
    · exact ⟨by omega, h.first_items⟩
  have hkeys : ∀ p ∈ [(⟨0, 0, ref, true⟩ : Pending), ⟨0, 0, ref', true⟩], p.key ≠ ⟨0, 1⟩ := by
    intro p hp heq
    rcases List.mem_pair.1 hp with rfl | rfl <;> cases heq
  have hnext : q + 2 + 1 = ((c.after (.send 0 [])).after (.pollTransmit later blank)).crypto.nextSequence := by
    rw [hsequence, h.sequence_eq]
  have hfew : ((c.after (.send 0 [])).after (.pollTransmit later blank)).crypto.replay.newest.getD 0 < k + 2 + 1 := by
    rw [hsequence]
    show c.crypto.replay.newest.getD 0 < k + 2 + 1
    omega
  have hlost := (hflying q earlier a).2 (.inr ((h.flying_iff q earlier a).2 (.inr ⟨rfl, rfl, rfl⟩)))
  have hnewest := (hflying (q + 2) later record).2 (.inl ⟨h.sequence_eq.symm, rfl, rfl⟩)
  obtain ⟨datagram, hposed, -, hpending, hgrounded, -⟩ :=
    hthird.ack hitems hkeys hnext hnewest hrecord hold ⟨q, earlier, a, hlost, by omega⟩ hfew
  refine ⟨_, hposed.reached, fun haccounted => ?_⟩
  obtain ⟨p, t, r, hf, -⟩ :=
    haccounted.reliable ⟨0, 0, ref', true⟩ (by rw [hpending]; simp) .reliableOrdered hposed.kind_zero rfl rfl
  exact hgrounded p t r hf

/-- **Once the ids wrap, a message stalls.** After every other id has been used
while the first message was lost each time, the next send takes the first
one's id; both are in flight, both packets are lost, and one loss unmarks the
first message twice. -/
theorem message_stalls : ∃ c, Lts.Reachable (sys Client) c ∧ ¬ c.Accounted := by
  obtain ⟨c, clock, hturning⟩ := turns (2 ^ 32 - 1) (by decide)
  obtain ⟨c, earlier, now, q, a, b, hpaired⟩ := hturning.pair (by decide)
  exact hpaired.stalls (by decide) (by decide)

end Connection
end HexNet
