/-
A driver woken by a deadline does not spin: `handle_timeout` and then
`poll_transmit` until it has nothing more to give, all at one instant, leave a
connection whose next deadline is later.

Each of the six deadlines is pushed past the instant by something else. Idle
silence closes the connection; the role drops its probe; what is overdue in the
ledger is declared lost; a probe or a keepalive that is due becomes a packet
owed, and owed packets are what polling sends. `Serviced` is what the timer
work leaves and every packet sent at that instant keeps. Polling ends because a
packet uses up something owed, or bytes of a bucket that is refilled once an
instant (`effort`).
-/
import HexNet.Losses
import HexNet.Transmit

namespace HexNet

open Ack (Delivery Notice Outgoing)

theorem Timestamp.lt_saturatingAdd {now t : Timestamp} {d : Span} (hend : now.nanos < 2 ^ 64 - 1)
    (h : now.nanos < t.nanos + d.nanos) : now < t.saturatingAdd d := by
  rw [lt_iff, saturatingAdd_nanos]
  omega

/-! ## The ledger's deadlines -/

namespace Ack.Delivery

variable {P : Type} {N : Nat} [NeZero N] {d : Delivery P N} {clock now : Timestamp}

/-- How long after the last eliciting packet a probe is owed. -/
def probeWait (d : Delivery P N) : Span :=
  ((d.rtt.smoothed.saturatingAdd ((d.rtt.variation.saturatingMul 4).max timerGranularity)).saturatingAdd
    d.peerAckDelay).saturatingMul d.probes.factor

theorem probeDeadline_eq (d : Delivery P N) :
    d.probeDeadline = d.oldestInFlight.map fun _ => d.lastEliciting.saturatingAdd d.probeWait := rfl

theorem probeWait_pos (d : Delivery P N) : 0 < d.probeWait.nanos := by
  have hfloor : 0 < timerGranularity.nanos := by decide
  have hfactor : 0 < d.probes.factor := by
    rw [ProbeBackoff.factor, Nat.shiftLeft_eq]
    exact Nat.mul_pos Nat.one_pos (Nat.two_pow_pos _)
  rw [probeWait, Span.saturatingMul_nanos]
  refine Nat.lt_min.2 ⟨Nat.mul_pos ?_ hfactor, by decide⟩
  simp only [Span.saturatingAdd_nanos, Span.max_nanos]
  omega

/-- The ledger's own deadlines are later than `now`, where nothing is overdue
and no probe is. -/
theorem nextTimeout_later (hend : now.nanos < 2 ^ 64 - 1) (hcurrent : ∀ q t r, ¬ d.Overdue now q t r)
    (hprobe : ∀ {q t r}, d.Flying q t r → now < d.lastEliciting.saturatingAdd d.probeWait) {deadline : Timestamp}
    (h : d.nextTimeout = some deadline) : now < deadline := by
  obtain ⟨t, r, hf⟩ := flying_of_nextTimeout h
  obtain ⟨deadline', probe, hdeadline, hprobe', -, -, hwhich⟩ := nextTimeout_spec hf
  obtain rfl := Option.some.inj (h.symm.trans hdeadline)
  rcases hwhich with rfl | ⟨⟨a, ha, hlt⟩, rfl⟩
  · rw [probeDeadline_eq, oldestInFlight_eq_some.2 ⟨t, r, rfl, hf⟩] at hprobe'
    obtain rfl := Option.some.inj hprobe'
    exact hprobe hf
  · refine Timestamp.lt_saturatingAdd hend (Nat.lt_of_not_le fun hle => ?_)
    refine hcurrent _ t r ⟨hf, a, ha, hlt, .inr ?_⟩
    rw [Span.le_iff, Timestamp.since_nanos]
    omega

/-! ### Detection -/

/-- What detection leaves in flight is not overdue. -/
theorem Orderly.detectLost_current (h : d.Orderly clock) (now : Timestamp) (q : Nat) (t : Timestamp) (r : P) :
    ¬ (d.detectLost now).1.Overdue now q t r := by
  obtain ⟨-, -, hleft, -⟩ := h.detectLost now
  rintro ⟨hf, a, ha, hlt, hrule⟩
  obtain ⟨hf, hnot⟩ := (hleft q t r).1 hf
  obtain ⟨sent, n, oldest, heq⟩ := d.detectLost_shape now
  rw [heq] at ha hrule
  exact hnot ⟨hf, a, ha, hlt, hrule⟩

/-- **What a timeout leaves**: nothing overdue, and probes asked for or no probe
due. -/
theorem Orderly.onTimeout_current (h : d.Orderly clock) (hs : d.Settled) (now : Timestamp) :
    (∀ q t r, ¬ (d.onTimeout now).1.Overdue now q t r) ∧
      (0 < (d.onTimeout now).2.2.getD 0 ∨ ∀ {q t r}, (d.onTimeout now).1.Flying q t r →
        now < (d.onTimeout now).1.lastEliciting.saturatingAdd (d.onTimeout now).1.probeWait) := by
  have hcurrent := h.detectLost_current now
  have hlost := (h.detectLost now).2.2.2
  have hsettled := h.detectLost_settled (fun _ => hs) now
  unfold Delivery.onTimeout
  dsimp only
  split
  next hnone =>
    refine ⟨hcurrent, .inr fun hf => ?_⟩
    obtain ⟨t, r, hfront⟩ := hlost.front hsettled hf
    rw [probeDeadline_eq, oldestInFlight_eq_some.2 ⟨t, r, rfl, hfront⟩] at hnone
    cases hnone
  next deadline hdeadline =>
    split
    next hearly =>
      refine ⟨hcurrent, .inr fun _ => ?_⟩
      rw [probeDeadline_eq] at hdeadline
      obtain ⟨e, -, heq⟩ := Option.map_eq_some_iff.1 hdeadline
      rw [heq]
      exact hearly
    · exact ⟨hcurrent, .inl (show 0 < probePackets by decide)⟩

/-! ### Sends -/

theorem advanceOldest_timing (d : Delivery P N) : d.advanceOldest.lossDelay = d.lossDelay ∧
    d.advanceOldest.probeWait = d.probeWait ∧ d.advanceOldest.lastEliciting = d.lastEliciting := by
  obtain ⟨oldest, heq, -⟩ := d.advanceOldest_spec
  rw [heq]
  exact ⟨rfl, rfl, rfl⟩

theorem onSent_timing (d : Delivery P N) (now : Timestamp) (q : Nat) (outgoing : Outgoing P) :
    (d.onSent now q outgoing).1.lossDelay = d.lossDelay ∧ (d.onSent now q outgoing).1.probeWait = d.probeWait := by
  unfold Delivery.onSent
  cases outgoing with
  | ackOnly => exact ⟨(advanceOldest_timing _).1, (advanceOldest_timing _).2.1⟩
  | eliciting record =>
    dsimp only
    split <;> exact ⟨(advanceOldest_timing _).1, (advanceOldest_timing _).2.1⟩

theorem onSent_eliciting (d : Delivery P N) (now : Timestamp) (q : Nat) (record : P) :
    (d.onSent now q (.eliciting record)).1.lastEliciting = now := by
  unfold Delivery.onSent
  dsimp only
  split <;> exact (advanceOldest_timing _).2.2

/-- An acknowledgement alone is not tracked. -/
theorem onSent_ackOnly (d : Delivery P N) (now : Timestamp) (q : Nat) :
    (d.onSent now q .ackOnly).1.lastEliciting = d.lastEliciting ∧
      ∀ {q' t r}, (d.onSent now q .ackOnly).1.Flying q' t r → d.Flying q' t r :=
  ⟨(advanceOldest_timing _).2.2, fun hf => by
    rw [Delivery.onSent, Flying, advanceOldest_sent] at hf
    exact hf⟩

/-- A packet sent now makes none overdue. -/
theorem Orderly.onSent_current (h : d.Orderly clock) (hcurrent : ∀ q t r, ¬ d.Overdue now q t r) {q : Nat}
    (hq : ∀ largest, d.largestSent = some largest → largest < q) (outgoing : Outgoing P) (q' : Nat) (t : Timestamp)
    (r : P) : ¬ (d.onSent now q outgoing).1.Overdue now q' t r := by
  obtain ⟨d', heq, -, hacked, -, hflying⟩ := d.onSent_spec now q outgoing
  have hdelay := (d.onSent_timing now q outgoing).1
  rintro ⟨hf, a, ha, hlt, hrule⟩
  rw [hdelay] at hrule
  rw [heq] at hf ha
  rw [advanceOldest_largestAcked, hacked] at ha
  rcases hflying _ _ _ (advanceOldest_flying.1 hf) with ⟨rfl, -⟩ | hf
  · obtain ⟨largest, hl, hle⟩ := h.acked ha
    have := hq largest hl
    omega
  · exact hcurrent q' t r ⟨hf, a, ha, hlt, hrule⟩

/-- Neither reads the estimate. -/
theorem Orderly.flight {d' : Delivery P N} (h : d.Orderly clock) (heq : d'.flight = d.flight) : d'.Orderly clock := by
  cases d
  cases d'
  simp only [Delivery.flight, Prod.mk.injEq] at heq
  obtain ⟨rfl, rfl, rfl, rfl, rfl, rfl⟩ := heq
  exact ⟨h.inOrder, h.past, h.sent, h.acked, h.positive, h.oldest, h.next⟩

theorem Settled.flight {d' : Delivery P N} (h : d.Settled) (heq : d'.flight = d.flight) : d'.Settled := by
  cases d
  cases d'
  simp only [Delivery.flight, Prod.mk.injEq] at heq
  obtain ⟨rfl, rfl, rfl, rfl, rfl, rfl⟩ := heq
  exact ⟨h.front, h.swept⟩

end Ack.Delivery

/-! ## A packet sent -/

namespace Connection

variable {R : Type}

theorem foldl_applyResolution_tokens (ns : List (Notice PacketRecord)) (s : Channels × Budget) :
    (ns.foldl (fun s notice => applyResolution s notice.what) s).2.tokens = s.2.tokens := by
  induction ns generalizing s with
  | nil => rfl
  | cons n ns ih =>
    rw [List.foldl_cons, ih]
    obtain ⟨sequence, what⟩ := n
    cases what <;> rfl

/-- Close notices left to send, one more while any is. -/
def noticesLeft (c : Connection R) : Nat :=
  match c.lifecycle with
  | .closing _ remaining => remaining + 1
  | .open | .closed => 0

theorem noticesLeft_noticeSent (c : Connection R) : c.noticeSent.noticesLeft ≤ c.noticesLeft - 1 := by
  unfold noticeSent
  cases hlife : c.lifecycle with
  | «open» => simp [noticesLeft, hlife]
  | closed => simp [noticesLeft, hlife]
  | closing reason remaining =>
    dsimp only
    split
    · simp [noticesLeft]
    · simp [noticesLeft, hlife]
      omega

/-- What a packet of `len` bytes sent at `now` does to a connection. -/
structure Sends (c c' : Connection R) (now : Timestamp) (len : Nat) (eliciting : Bool) : Prop where
  delivery : ∃ record, c'.delivery =
    (c.delivery.onSent now c.crypto.nextSequence (if eliciting then .eliciting record else .ackOnly)).1
  sequence_eq : c'.crypto.nextSequence = c.crypto.nextSequence + 1
  refill_eq : c'.budget.lastRefill = (c.budget.advance now).lastRefill
  tokens_eq : c'.budget.tokens = (c.budget.advance now).tokens - tokensOf len
  control_eq : c'.control = c.control.drained
  probes_eq : c'.pendingProbes = c.pendingProbes - 1
  owed_eq : c'.acks.owed = .nothing
  notices : c'.noticesLeft ≤ c.noticesLeft - 1
  liveness_eq : c'.liveness = c.liveness
  received_eq : c'.lastReceived = c.lastReceived
  role_eq : c'.role = c.role

/-- What the ledger reports of a send changes neither the level nor when it was
refilled. -/
theorem committed_budget (c : Connection R) (now : Timestamp) (crypto : PacketCrypto) (staged : PacketMessages)
    (eliciting : Bool) : (c.committed now crypto staged eliciting).budget.lastRefill = c.budget.lastRefill ∧
      (c.committed now crypto staged eliciting).budget.tokens = c.budget.tokens :=
  ⟨(foldl_applyResolution _ _).2, foldl_applyResolution_tokens _ _⟩

theorem transmitted_sends (c : Connection R) {now : Timestamp} (filled : Channels) (staged : PacketMessages) (len : Nat)
    (eliciting : Bool) :
    c.Sends ((c.filledWith now filled).transmitted now { c.crypto with nextSequence := c.crypto.nextSequence + 1 } staged
      len eliciting) now len eliciting := by
  obtain ⟨hrefill, htokens⟩ := (c.filledWith now filled).committed_budget now
    { c.crypto with nextSequence := c.crypto.nextSequence + 1 } staged eliciting
  have hcommitted : ∃ record, ((c.filledWith now filled).committed now
      { c.crypto with nextSequence := c.crypto.nextSequence + 1 } staged eliciting).delivery =
        (c.delivery.onSent now c.crypto.nextSequence (if eliciting then .eliciting record else .ackOnly)).1 := ⟨_, rfl⟩
  have hsequence : ((c.filledWith now filled).committed now
      { c.crypto with nextSequence := c.crypto.nextSequence + 1 } staged eliciting).crypto.nextSequence =
        c.crypto.nextSequence + 1 := rfl
  have hsame : ∀ k : Connection R, k = (c.filledWith now filled).committed now
      { c.crypto with nextSequence := c.crypto.nextSequence + 1 } staged eliciting →
      k.control = c.control.drained ∧ k.pendingProbes = c.pendingProbes - 1 ∧ k.lifecycle = c.lifecycle ∧
        k.liveness = c.liveness ∧ k.lastReceived = c.lastReceived ∧ k.role = c.role := by
    rintro k rfl
    exact ⟨rfl, rfl, rfl, rfl, rfl, rfl⟩
  unfold transmitted
  generalize hk : (c.filledWith now filled).committed now
    { c.crypto with nextSequence := c.crypto.nextSequence + 1 } staged eliciting = k at *
  obtain ⟨hcontrol, hprobes, hlife, hliveness, hreceived, hrole⟩ := hsame k rfl
  obtain ⟨-, hdelivery, hcrypto, hbudget, hliveness', hacks, hprobes', hcontrol', hrole', hreceived'⟩ :=
    noticeSent_same { k with budget := k.budget.onSent len eliciting, acks := k.acks.sent now eliciting }
  have hnotices : ∀ budget acks, noticesLeft { k with budget, acks } = c.noticesLeft := fun _ _ => by
    rw [noticesLeft, noticesLeft, hlife]
  refine ⟨?_, ?_, ?_, ?_, hcontrol'.trans hcontrol, hprobes'.trans hprobes, ?_, ?_, hliveness'.trans hliveness,
    hreceived'.trans hreceived, hrole'.trans hrole⟩
  · obtain ⟨record, heq⟩ := hcommitted
    exact ⟨record, hdelivery.trans heq⟩
  · rw [hcrypto]
    exact hsequence
  · have hlast : k.budget.lastRefill = (c.budget.advance now).lastRefill := hrefill
    rw [hbudget, ← hlast]
    exact Budget.onSent_lastRefill ..
  · have hlevel : k.budget.tokens = (c.budget.advance now).tokens := htokens
    rw [hbudget, ← hlevel]
    exact Budget.onSent_tokens ..
  · rw [hacks, Acks.sent]
  · rw [← hnotices (k.budget.onSent len eliciting) (k.acks.sent now eliciting)]
    exact noticesLeft_noticeSent _

/-- **A packet that came out of a poll was owed**, and this is what it did. -/
theorem pollTransmit_sends {c : Connection R} (h : c.channels.Intact) {now : Timestamp} {out : Packet}
    (hsome : (c.pollTransmit now out).2.isSome = true) : (c.assessed now).Owing now ∧
      ∃ len eliciting, 0 < len ∧ (c.controlFrames ≠ [] → eliciting = true) ∧
        (c.assessed now).Sends (c.pollTransmit now out).1 now len eliciting := by
  rcases pollTransmit_cases h now out with ⟨-, heq⟩ | ⟨hdue, hbuilds⟩
  · rw [heq] at hsome
    cases hsome
  · refine ⟨(transmitDue_iff _ _).1 hdue, ?_⟩
    cases hr : c.pollTransmit now out with
    | mk c' sent =>
      rw [hr] at hbuilds hsome
      cases hbuilds with
      | aborted => cases hsome
      | built =>
        refine ⟨_, _, ?_, fun hframes => ?_, transmitted_sends _ _ _ _ _⟩
        · rw [List.length_append]
          exact Nat.add_pos_left (by simp [Header.bytes]) _
        · unfold elicits
          rw [show (c.assessed now).controlFrames = c.controlFrames from rfl]
          simp [hframes]

/-! ## Polling ends -/

/-- What there is to send, the bytes it may cost included. -/
def dues (c : Connection R) : Nat :=
  c.pendingProbes + c.noticesLeft + (!c.control.isEmpty).toNat + (decide (c.acks.owed ≠ .nothing)).toNat +
    c.budget.tokens

/-- What polling at `now` can still do: refill the bucket, and send. -/
def effort (now : Timestamp) (c : Connection R) : Nat × Nat :=
  ((decide (c.budget.lastRefill ≠ now)).toNat, c.dues)

/-- What makes a packet owed is something it uses up. -/
theorem Owing.dues {c : Connection R} {now : Timestamp} (h : c.Owing now) (hintact : c.channels.Intact)
    (hback : c.budget.lastRefill ≤ now) (hend : now.nanos < 2 ^ 64 - 1) :
    0 < c.pendingProbes ∨ 0 < c.noticesLeft ∨ c.control.isEmpty = false ∨ c.acks.owed ≠ .nothing ∨
      0 < (c.budget.advance now).tokens := by
  by_cases hframes : c.controlFrames = []
  · rcases h.idle hframes with hack | ⟨len, -, hnext, hready⟩
    · refine .inr (.inr (.inr (.inl fun hnothing => ?_)))
      rw [Acks.due, Acks.deadline, hnothing] at hack
      cases hack
    · refine .inr (.inr (.inr (.inr (Nat.pos_of_ne_zero fun hzero => ?_))))
      have havailable := c.budget.available_of_ready (hintact.nextUnsentLen_le hnext) hback (.inl hend) hready
      have hnone : (c.budget.available now).2 = 0 := by
        rw [Budget.available]
        dsimp only
        rw [hzero]
        exact Nat.min_eq_left (Nat.zero_le _)
      rw [hnone] at havailable
      unfold headerMaxLen at havailable
      omega
  · by_cases hprobes : 0 < c.pendingProbes
    · exact .inl hprobes
    · by_cases hcontrol : c.control.isEmpty = false
      · exact .inr (.inr (.inl hcontrol))
      · refine .inr (.inl (Nat.pos_of_ne_zero fun hleft => hframes ?_))
        have hempty := c.controlFrames_isEmpty
        have hclose : c.closeFrames = [] := by
          unfold noticesLeft at hleft
          unfold closeFrames
          cases hlife : c.lifecycle with
          | closing reason remaining =>
            rw [hlife] at hleft
            cases hleft
          | _ => rfl
        have hping : c.pingFrames = [] := if_neg (by omega)
        rw [hclose, hping, Bool.eq_true_of_not_eq_false hcontrol] at hempty
        exact List.isEmpty_iff.1 hempty

/-- **A packet lowers the effort left.** -/
theorem Sends.lowers {c c' : Connection R} {now : Timestamp} {len : Nat} {eliciting : Bool}
    (h : (c.assessed now).Sends c' now len eliciting) (hlen : 0 < len) (howing : (c.assessed now).Owing now)
    (hintact : c.channels.Intact) (hback : c.budget.lastRefill ≤ now) (hend : now.nanos < 2 ^ 64 - 1) :
    Prod.Lex (· < ·) (· < ·) (c'.effort now) (c.effort now) := by
  obtain ⟨hrefill, htokens⟩ := Budget.assess_level c.budget now c.delivery.rtt
  have hrefill : (c.assessed now).budget.lastRefill = c.budget.lastRefill := hrefill
  have htokens : (c.assessed now).budget.tokens ≤ c.budget.tokens := htokens
  have hnow : c'.budget.lastRefill = now := by
    rw [h.refill_eq, Budget.advance_lastRefill _ (by rw [hrefill]; exact hback)]
  by_cases hfilled : c.budget.lastRefill = now
  · have hstays := Budget.advance_early (Nat.le_of_eq (congrArg Timestamp.nanos (hrefill.trans hfilled).symm))
    have hdues := howing.dues hintact (by rw [hrefill]; exact hback) hend
    have hspent := h.tokens_eq
    rw [hstays] at hdues hspent
    have hcost : 0 < tokensOf len := by rw [Budget.tokensOf_eq]; omega
    have hcontrol : (!c'.control.isEmpty).toNat = 0 := by rw [h.control_eq]; rfl
    have howed : (decide (c'.acks.owed ≠ .nothing)).toNat = 0 := by rw [h.owed_eq]; rfl
    have hprobes : c'.pendingProbes = c.pendingProbes - 1 := h.probes_eq
    have hnotices : c'.noticesLeft ≤ c.noticesLeft - 1 := h.notices
    have hless : c'.dues < c.dues := by
      unfold dues
      rw [hcontrol, howed, hprobes, hspent]
      rcases hdues with hd | hd | hd | hd | hd
      · have hd : 0 < c.pendingProbes := hd
        omega
      · have hd : 0 < c.noticesLeft := hd
        omega
      · have hd : c.control.isEmpty = false := hd
        rw [hd]
        simp only [Bool.not_false, Bool.toNat_true]
        omega
      · have hd : c.acks.owed ≠ .nothing := hd
        rw [decide_eq_true hd]
        simp only [Bool.toNat_true]
        omega
      · omega
    rw [effort, effort, hnow, hfilled]
    exact .right _ hless
  · rw [effort, effort, hnow, decide_eq_true hfilled]
    exact .left _ _ (by simp)

/-! ## Runs in which time does not go back -/

/-- The next packet's number is the one after the largest sent. -/
def Numbered (c : Connection R) : Prop :=
  c.crypto.nextSequence = c.delivery.largestSent.elim Sequence.first (· + 1)

/-- What is so of a connection whose calls were given times up to `clock`. -/
structure Timely (c : Connection R) (clock : Timestamp) : Prop where
  intact : c.channels.Intact
  numbered : c.Numbered
  refilled : c.budget.lastRefill ≤ clock
  orderly : c.delivery.Orderly clock
  settled : c.delivery.Settled

theorem Numbered.new {c : Connection R} (h : c.Numbered) : 0 < c.crypto.nextSequence ∧
    ∀ largest, c.delivery.largestSent = some largest → largest < c.crypto.nextSequence := by
  unfold Numbered at h
  cases hl : c.delivery.largestSent with
  | none =>
    rw [hl] at h
    exact ⟨by rw [h]; exact Nat.one_pos, fun _ h => (nomatch h)⟩
  | some l =>
    rw [hl] at h
    refine ⟨by rw [h]; exact Nat.succ_pos l, ?_⟩
    rintro _ ⟨⟩
    rw [h]
    exact Nat.lt_succ_self l

theorem Numbered.largest {c : Connection R} (h : c.Numbered) {largest : Nat}
    (hl : c.delivery.largestSent = some largest) : largest + 1 = c.crypto.nextSequence := by
  rw [Numbered, hl] at h
  exact h.symm

theorem new_timely (now : Timestamp) (id : ConnectionId) (addr : SocketAddr) (tx rx : Aead) (set : ChannelSet)
    (transport : TransportConfig) (owed : Owed) (role : R) :
    (Connection.new now id addr tx rx set transport owed role).Timely now :=
  have hnew := Delivery.new_orderly (P := PacketRecord) (N := ledgerSlots) now now transport.maxAckDelay
  ⟨Channels.new_intact set, rfl, Nat.le_refl _, hnew.1, hnew.2⟩

variable {clock now : Timestamp}

theorem Timely.passive {c c' : Connection R} (h : c.Timely clock) (hp : c.Passive c') : c'.Timely clock where
  intact := h.intact.sendSide hp.sendSide_eq
  numbered := by
    have hlargest : c'.delivery.largestSent = c.delivery.largestSent := congrArg (·.2.1) hp.flight_eq
    rw [Numbered, hp.sequence_eq, hlargest]
    exact h.numbered
  refilled := by
    rw [hp.refill_eq]
    exact h.refilled
  orderly := h.orderly.flight hp.flight_eq
  settled := h.settled.flight hp.flight_eq

theorem Timely.later {c : Connection R} (h : c.Timely clock) (hle : clock ≤ now) : c.Timely now :=
  { h with refilled := Timestamp.le_trans h.refilled hle, orderly := h.orderly.later hle }

theorem Timely.assessed {c : Connection R} (h : c.Timely clock) (now : Timestamp) : (c.assessed now).Timely clock :=
  { h with
    refilled := by
      show (c.budget.assess now c.delivery.rtt).lastRefill ≤ clock
      rw [(Budget.assess_level ..).1]
      exact h.refilled }

/-- An operation of the ledger, as of its own runs. -/
theorem Timely.ledgerOp {c : Connection R} (h : c.Timely clock) {op : Ack.LedgerOp PacketRecord}
    (hop : op.Admissible ⟨c.delivery, [], []⟩) (htime : ∀ t, op.time = some t → clock ≤ t) :
    (Ack.Ledger.apply ⟨c.delivery, [], []⟩ op).delivery.Orderly (op.time.getD clock) ∧
      (Ack.Ledger.apply ⟨c.delivery, [], []⟩ op).delivery.Settled :=
  Ack.Clocked.orderly_step (s := ⟨⟨c.delivery, [], []⟩, clock⟩) hop htime h.orderly h.settled

/-- What such an operation that sends nothing leaves. -/
theorem Timely.ledger {c : Connection R} (h : c.Timely clock) {d : Delivery PacketRecord ledgerSlots}
    (ns : List (Notice PacketRecord)) (hd : d.Orderly now ∧ d.Settled)
    (hlargest : d.largestSent = c.delivery.largestSent) (hle : clock ≤ now) : (c.ledger (d, ns)).Timely now where
  intact := (ledger_settles c (d, ns)).1.intact h.intact
  numbered := by
    show c.crypto.nextSequence = d.largestSent.elim _ _
    rw [hlargest]
    exact h.numbered
  refilled := by
    rw [(ledger_settles c (d, ns)).2]
    exact Timestamp.le_trans h.refilled hle
  orderly := hd.1
  settled := hd.2

theorem Sends.timely {c c' : Connection R} {len : Nat} {eliciting : Bool} (hs : c.Sends c' now len eliciting)
    (h : c.Timely now) (hintact : c'.channels.Intact) : c'.Timely now := by
  obtain ⟨record, hdelivery⟩ := hs.delivery
  obtain ⟨hpos, hnew⟩ := h.numbered.new
  obtain ⟨horderly, hsettled⟩ := h.orderly.onSent h.settled (Nat.le_refl _) hpos hnew
    (if eliciting then .eliciting record else .ackOnly)
  refine ⟨hintact, ?_, ?_, hdelivery ▸ horderly, hdelivery ▸ hsettled⟩
  · rw [Numbered, hs.sequence_eq, hdelivery, Delivery.onSent_largestSent]
    cases hl : c.delivery.largestSent with
    | none => rfl
    | some l => exact congrArg (· + 1) (Nat.max_eq_right (Nat.le_of_lt (hnew l hl))).symm
  · rw [hs.refill_eq, Budget.advance_lastRefill _ h.refilled]
    exact Nat.le_refl _

theorem Timely.pollTransmit {c : Connection R} (h : c.Timely clock) (hle : clock ≤ now) (out : Packet) :
    (c.pollTransmit now out).1.Timely now := by
  have hassessed := (h.later hle).assessed now
  have hintact := (pollTransmit_shrinks h.intact now out).intact h.intact
  rcases pollTransmit_cases h.intact now out with ⟨-, heq⟩ | ⟨-, hbuilds⟩
  · rw [heq]
    exact hassessed
  · cases hr : c.pollTransmit now out with
    | mk c' sent =>
      rw [hr] at hbuilds hintact
      cases hbuilds with
      | aborted =>
        refine ⟨hintact, hassessed.numbered, ?_, hassessed.orderly, hassessed.settled⟩
        show ((c.assessed now).budget.advance now).lastRefill ≤ now
        rw [Budget.advance_lastRefill _ hassessed.refilled]
        exact Nat.le_refl _
      | built => exact (transmitted_sends _ _ _ _ _).timely hassessed hintact

/-- **One call** keeps it, when it is given no earlier time. -/
theorem Timely.step [OwnOps R] {c c' : Connection R} {call : Call R} (h : c.Timely clock) (hdoes : c.Does call c')
    (htime : ∀ t, call.time = some t → clock ≤ t) : c'.Timely (call.time.getD clock) := by
  have hlate : clock ≤ call.time.getD clock := by
    cases ht : call.time with
    | none => exact Nat.le_refl _
    | some t => exact htime t ht
  cases hdoes with
  | passive hp => exact (h.later hlate).passive hp
  | sent channel payload => exact { h with intact := h.intact.send channel payload }
  | @acked now sender datagram _ ack ackDelay bits hused hp =>
    have hle : clock ≤ now := htime now rfl
    have hsent : ∃ largest, c.delivery.largestSent = some largest ∧ ack ≤ largest := by
      have hnumbered := h.numbered
      unfold Numbered at hnumbered
      cases hl : c.delivery.largestSent with
      | none =>
        rw [hl] at hnumbered
        have : c.crypto.nextSequence = 1 := hnumbered
        omega
      | some l =>
        rw [hl] at hnumbered
        have : c.crypto.nextSequence = l + 1 := hnumbered
        exact ⟨l, rfl, by omega⟩
    have hop : Ack.LedgerOp.Admissible ⟨c.delivery, [], []⟩ (.onAck now ack ackDelay bits) := ⟨hused.1, hsent⟩
    exact (h.ledger _ (h.ledgerOp hop fun _ ht => htime _ ht) (Delivery.onAck_largestSent ..) hle).passive hp
  | @timedOut now _ hp =>
    have hle : clock ≤ now := htime now rfl
    have hop : Ack.LedgerOp.Admissible ⟨c.delivery, [], []⟩ (.onTimeout now) := trivial
    exact (h.ledger _ (h.ledgerOp hop fun _ ht => htime _ ht) (Delivery.onTimeout_largestSent ..) hle).passive hp
  | polled now out => exact h.pollTransmit (htime now rfl) out

/-! ## A connection serviced at an instant -/

/-- The deadlines that follow the last eliciting packet have not come. -/
def Quiet (c : Connection R) (now : Timestamp) : Prop :=
  now < c.delivery.lastEliciting.saturatingAdd c.liveness.keepalive ∧
    ∀ {q t r}, c.delivery.Flying q t r → now < c.delivery.lastEliciting.saturatingAdd c.delivery.probeWait

/-- What the timer work at `now` leaves, and every packet sent at `now` keeps:
no deadline but that of a packet owed has come. -/
structure Serviced [Role R] (c : Connection R) (now : Timestamp) : Prop extends Timely c now where
  idle : now < c.lastReceived.saturatingAdd c.liveness.idleTimeout
  role : ∀ t, Role.nextDeadline c = some t → now < t
  current : ∀ q t r, ¬ c.delivery.Overdue now q t r
  /-- A probe or a keepalive that was due is owed, or went out. -/
  probed : 0 < c.pendingProbes ∨ c.delivery.lastEliciting = now ∨ c.Quiet now

section

variable [Role R]

/-- A closed connection has nothing to send and no deadline. -/
theorem closed_rests {c : Connection R} (h : c.lifecycle = .closed) (now : Timestamp) (out : Packet) :
    (c.pollTransmit now out).2 = none ∧ (c.pollTransmit now out).1.nextTimeout = none := by
  have hidle : (c.assessed now).transmitDue now = false := by
    rw [transmitDue, transmitAt, if_pos (show (c.assessed now).lifecycle = .closed from h)]
    rfl
  have heq : c.pollTransmit now out = (c.assessed now, none) := by
    unfold Connection.pollTransmit
    dsimp only
    rw [hidle]
    rfl
  rw [heq]
  exact ⟨rfl, if_pos h⟩

/-- With nothing owed, every deadline is later. -/
theorem Serviced.nextTimeout_later {c : Connection R} (h : c.Serviced now) (hend : now.nanos < 2 ^ 64 - 1)
    (howing : ¬ c.Owing now) {t : Timestamp} (ht : c.nextTimeout = some t) : now < t := by
  refine Nat.lt_of_not_le fun hle => ?_
  have hle : t ≤ now := hle
  unfold nextTimeout at ht
  split at ht
  · cases ht
  next hopen =>
    have hnone : c.pendingProbes = 0 := by
      by_contra hne
      refine howing ⟨.zero, ?_, Nat.zero_le _⟩
      rw [transmitAt, if_neg hopen, if_pos (.inl (Nat.pos_of_ne_zero hne))]
    have hlast : c.Quiet now := by
      rcases h.probed with hp | hp | hp
      · omega
      · have hkeepalive := c.liveness.keepalive_pos
        have hwait := c.delivery.probeWait_pos
        unfold Quiet
        rw [hp]
        exact ⟨Timestamp.lt_saturatingAdd hend (by omega), fun _ => Timestamp.lt_saturatingAdd hend (by omega)⟩
      · exact hp
    dsimp only at ht
    rcases earliest_le ht hle with ⟨s, hs, hsle⟩ | ⟨s, hs, hsle⟩
    · obtain rfl := Option.some.inj hs
      exact absurd hsle (Nat.not_le_of_lt h.idle)
    rcases earliest_le hs hsle with ⟨s, hs, hsle⟩ | ⟨s, hs, hsle⟩
    · exact howing ⟨s, hs, hsle⟩
    rcases earliest_le hs hsle with ⟨s, hs, hsle⟩ | ⟨s, hs, hsle⟩
    · exact absurd hsle (Nat.not_le_of_lt (Delivery.nextTimeout_later hend h.current hlast.2 hs))
    rcases earliest_le hs hsle with ⟨s, hs, hsle⟩ | ⟨s, hs, hsle⟩
    · exact absurd hsle (Nat.not_le_of_lt (h.role s hs))
    · obtain rfl := Option.some.inj hs
      exact absurd hsle (Nat.not_le_of_lt hlast.1)

variable [LawfulRole R]

theorem Serviced.assessed {c : Connection R} (h : c.Serviced now) : (c.assessed now).Serviced now where
  toTimely := h.toTimely.assessed now
  idle := h.idle
  role t ht := by
    have heq : Role.nextDeadline (c.assessed now) = Role.nextDeadline c := LawfulRole.nextDeadline rfl
    exact h.role t (heq.symm.trans ht)
  current := h.current
  probed := h.probed

theorem Sends.serviced {c c' : Connection R} {len : Nat} {eliciting : Bool} (hs : c.Sends c' now len eliciting)
    (hframes : c.controlFrames ≠ [] → eliciting = true) (h : c.Serviced now) (hintact : c'.channels.Intact) :
    c'.Serviced now := by
  obtain ⟨record, hdelivery⟩ := hs.delivery
  refine ⟨hs.timely h.toTimely hintact, ?_, fun t ht => ?_, ?_, ?_⟩
  · rw [hs.received_eq, hs.liveness_eq]
    exact h.idle
  · exact h.role t ((LawfulRole.nextDeadline hs.role_eq).symm.trans ht)
  · rw [hdelivery]
    exact h.orderly.onSent_current h.current h.numbered.new.2 _
  · cases eliciting with
    | true => exact .inr (.inl (by rw [hdelivery]; exact Delivery.onSent_eliciting ..))
    | false =>
      -- an acknowledgement alone, which no probe can have been owed beside
      have hnone : c.pendingProbes = 0 := by
        by_contra hne
        have : c.controlFrames ≠ [] := by simp [controlFrames, pingFrames, hne]
        exact Bool.noConfusion (hframes this)
      obtain ⟨hlast, hflying⟩ := c.delivery.onSent_ackOnly now c.crypto.nextSequence
      have hwait := (c.delivery.onSent_timing now c.crypto.nextSequence .ackOnly).2
      have hdelivery : c'.delivery = (c.delivery.onSent now c.crypto.nextSequence .ackOnly).1 := hdelivery
      rcases h.probed with hp | hp | hp
      · omega
      · exact .inr (.inl (by rw [hdelivery, hlast]; exact hp))
      · refine .inr (.inr ?_)
        unfold Quiet
        rw [hdelivery, hlast, hwait, hs.liveness_eq]
        exact ⟨hp.1, fun hf => hp.2 (hflying hf)⟩

/-- **Polling a serviced connection comes to an end**, with every deadline
later. -/
theorem Serviced.rests {c : Connection R} (h : c.Serviced now) (hend : now.nanos < 2 ^ 64 - 1) (outs : Nat → Packet) :
    let call := fun k (c : Connection R) => c.pollTransmit now (outs k)
    ∃ n, (call n (Lts.polled call c n)).2 = none ∧ (∀ k < n, (call k (Lts.polled call c k)).2.isSome = true) ∧
      ∀ t, (call n (Lts.polled call c n)).1.nextTimeout = some t → now < t := by
  intro call
  have hcall : ∀ k (c : Connection R), c.Serviced now → (call k c).2.isSome = true →
      (call k c).1.Serviced now ∧ Prod.Lex (· < ·) (· < ·) (effort now (call k c).1) (effort now c) := by
    intro k c hc hsome
    obtain ⟨howing, len, eliciting, hlen, hframes, hs⟩ := pollTransmit_sends hc.intact hsome
    refine ⟨hs.serviced hframes hc.assessed ?_, hs.lowers hlen howing hc.intact hc.refilled hend⟩
    exact (pollTransmit_shrinks hc.intact now _).intact hc.intact
  obtain ⟨n, hnone, hsome, hn⟩ := Lts.polled_ends (Prod.lex Nat.lt_wfRel Nat.lt_wfRel).wf hcall h
  refine ⟨n, hnone, hsome, fun t ht => ?_⟩
  rcases pollTransmit_cases hn.intact now (outs n) with ⟨hidle, heq⟩ | ⟨hdue, hbuilds⟩
  · rw [show call n (Lts.polled call c n) = _ from heq] at ht
    refine hn.assessed.nextTimeout_later hend (fun howing => ?_) ht
    rw [(transmitDue_iff _ _).2 howing] at hidle
    cases hidle
  · have hbuilt := hbuilds.isSome hn.assessed.intact ((transmitDue_iff _ _).1 hdue) hn.assessed.refilled hend
    rw [show (Connection.pollTransmit _ _ _).2 = none from hnone] at hbuilt
    cases hbuilt

end

/-! ## The timer work -/

/-- A role whose timer work leaves the ledger alone. -/
class SparesLedger (R : Type) [Role R] : Prop where
  delivery_eq : ∀ (c : Connection R) (now : Timestamp), (Role.onTimeout c now).delivery = c.delivery

instance : SparesLedger Client where
  delivery_eq _ _ := rfl

instance : SparesLedger Server where
  delivery_eq c now := by
    show (Server.onTimeout c now).delivery = _
    unfold Server.onTimeout
    split <;> rfl

section

variable [Role R] [LawfulRole R] [SparesLedger R]

theorem Timely.runTimers {c : Connection R} (h : c.Timely now) (hend : now.nanos < 2 ^ 64 - 1)
    (hidle : ¬ c.liveness.idleTimeout ≤ now.since c.lastReceived) : (c.runTimers now).Serviced now := by
  obtain ⟨hcurrent, hprobes⟩ := h.orderly.onTimeout_current h.settled now
  have hop : Ack.LedgerOp.Admissible ⟨c.delivery, [], []⟩ (.onTimeout now) := trivial
  have hledger := h.ledger (c.delivery.onTimeout now).2.1 (h.ledgerOp hop fun _ ht => Nat.le_of_eq (by cases ht; rfl))
    (Delivery.onTimeout_largestSent ..) (Nat.le_refl _)
  -- the connection the role's timer work is given
  obtain ⟨k, hk, hpassive, hdelivery, hliveness, hreceived, hasked⟩ : ∃ k : Connection R,
      c.runTimers now = Role.onTimeout k now ∧
        (c.ledger ((c.delivery.onTimeout now).1, (c.delivery.onTimeout now).2.1)).Passive k ∧
        k.delivery = (c.delivery.onTimeout now).1 ∧ k.liveness = c.liveness ∧ k.lastReceived = c.lastReceived ∧
        (k.pendingProbes = 0 → (c.delivery.onTimeout now).2.2.getD 0 = 0 ∧
          ¬ c.liveness.keepalive ≤ now.since k.delivery.lastEliciting) := by
    unfold Connection.runTimers
    dsimp only
    split
    · refine ⟨_, rfl, ⟨rfl, rfl, rfl, rfl, rfl, rfl⟩, rfl, rfl, rfl, fun hzero => ?_⟩
      dsimp only at hzero
      omega
    next hkeepalive =>
      refine ⟨_, rfl, ⟨rfl, rfl, rfl, rfl, rfl, rfl⟩, rfl, rfl, rfl, fun hzero => ⟨?_, hkeepalive⟩⟩
      dsimp only at hzero
      omega
  have htouched := LawfulRole.onTimeout k now
  have hspared := SparesLedger.delivery_eq k now
  rw [hk]
  refine ⟨(hledger.passive hpassive).passive htouched.passive, ?_, LawfulRole.deadline_later k hend, ?_, ?_⟩
  · rw [htouched.received_eq, htouched.liveness_eq, hreceived, hliveness]
    rw [Span.le_iff, Timestamp.since_nanos] at hidle
    exact Timestamp.lt_saturatingAdd hend (by omega)
  · rw [hspared, hdelivery]
    exact hcurrent
  · rw [htouched.probes_eq]
    refine (Nat.eq_zero_or_pos k.pendingProbes).symm.imp (fun hpos => hpos) fun hzero => .inr ?_
    obtain ⟨hnone, hkeepalive⟩ := hasked hzero
    unfold Quiet
    rw [hspared, htouched.liveness_eq, hliveness]
    refine ⟨?_, fun hf => ?_⟩
    · rw [Span.le_iff, Timestamp.since_nanos] at hkeepalive
      exact Timestamp.lt_saturatingAdd hend (by omega)
    · rw [hdelivery] at hf ⊢
      rcases hprobes with hasks | hquiet
      · omega
      · exact hquiet hf

theorem Timely.handleTimeout {c : Connection R} (h : c.Timely now) (hend : now.nanos < 2 ^ 64 - 1) :
    (c.handleTimeout now).lifecycle = .closed ∨ (c.handleTimeout now).Serviced now := by
  unfold Connection.handleTimeout
  split
  next hclosed => exact .inl hclosed
  · split
    · exact .inl rfl
    next hidle => exact .inr (h.runTimers hend hidle)

end

end Connection

/-! ## Every run -/

/-- A connection with the last time it was given. -/
structure Paced (R : Type) where
  connection : Connection R
  clock : Timestamp

namespace Paced

open Connection

variable {R : Type} [Role R] [LawfulRole R] [OwnOps R] {s : Paced R}

def after (s : Paced R) (call : Call R) : Paced R := ⟨s.connection.after call, call.time.getD s.clock⟩

/-- A call given no time before the last one given. -/
def Forward (s : Paced R) (call : Call R) : Prop := ∀ t, call.time = some t → s.clock ≤ t

/-- The runs of a connection in which time does not go back. -/
def sys (R : Type) [Role R] [OwnOps R] : Lts.Sys (Paced R) (Call R) where
  start s := ∃ now id addr tx rx set transport owed role, OwnOps.Fresh owed role ∧
    s = ⟨.new now id addr tx rx set transport owed role, now⟩
  step s call s' := s.Forward call ∧ s' = s.after call

theorem reachable_timely (h : Lts.Reachable (sys R) s) : s.connection.Timely s.clock := by
  refine Lts.Reach.invariant (P := fun s => s.connection.Timely s.clock) ?_ ?_ h
  · rintro _ ⟨now, id, addr, tx, rx, set, transport, owed, role, -, rfl⟩
    exact new_timely ..
  · rintro s call _ - hs - ⟨hforward, rfl⟩
    exact hs.step (after_does s.connection call) hforward

/-- **A driver woken by a deadline cannot spin.** In every state a connection
reaches by calls whose times do not go back, with the sum behind its idle
deadline within a timestamp: once it is given a time no earlier, polling it at
that time gives packets finitely often, and then it has no deadline, or a
later one. -/
theorem woken_driver_rests [SparesLedger R] (h : Lts.Reachable (sys R) s) {now : Timestamp} (hnow : s.clock ≤ now)
    (hsum : s.connection.lastReceived.nanos + s.connection.liveness.idleTimeout.nanos < 2 ^ 64)
    (outs : Nat → Packet) :
    let call := fun k (c : Connection R) => c.pollTransmit now (outs k)
    let woken := Lts.polled call (s.connection.handleTimeout now)
    ∃ n, (call n (woken n)).2 = none ∧ (∀ k < n, (call k (woken k)).2.isSome = true) ∧
      ∀ t, (call n (woken n)).1.nextTimeout = some t → now < t := by
  intro call woken
  have hclosed (hlife : (s.connection.handleTimeout now).lifecycle = .closed) : ∃ n, (call n (woken n)).2 = none ∧
      (∀ k < n, (call k (woken k)).2.isSome = true) ∧
        ∀ t, (call n (woken n)).1.nextTimeout = some t → now < t := by
    obtain ⟨hnone, hnext⟩ := closed_rests hlife now (outs 0)
    refine ⟨0, hnone, fun k hk => absurd hk (Nat.not_lt_zero k), fun t ht => ?_⟩
    have hnext : (call 0 (woken 0)).1.nextTimeout = none := hnext
    rw [hnext] at ht
    cases ht
  by_cases hend : now.nanos < 2 ^ 64 - 1
  · rcases ((reachable_timely h).later hnow).handleTimeout hend with hlife | hserviced
    · exact hclosed hlife
    · exact hserviced.rests hend outs
  · -- at the clock's last instant every silence has been too long
    refine hclosed ?_
    unfold Connection.handleTimeout
    split
    next hlife => exact hlife
    · rw [if_pos]
      rw [Span.le_iff, Timestamp.since_nanos]
      omega

/-- A server's connection as it is accepted. -/
def accepted : Paced Server :=
  ⟨.accept .zero 0 0 ⟨List.replicate nonceLen 0, TicketId.length_zeros⟩ (.v4 0 0) .clear .clear
    orderedOnly .default, .zero⟩

/-- When the first keepalive of `accepted` is due. -/
def firstKeepalive : Timestamp := Timestamp.zero.saturatingAdd Liveness.default.keepalive

/-- Its acceptance and a keepalive go out, and it rests. -/
theorem woken_driver_rests_accepted :
    Lts.Reachable (sys Server) accepted ∧ accepted.connection.nextTimeout = some .zero ∧
      let call := fun _ (c : Connection Server) => c.pollTransmit firstKeepalive blank
      let woken := Lts.polled call (accepted.connection.handleTimeout firstKeepalive)
      ∃ n, (call n (woken n)).2 = none ∧ (∀ k < n, (call k (woken k)).2.isSome = true) ∧
        ∀ t, (call n (woken n)).1.nextTimeout = some t → firstKeepalive < t := by
  have hreach : Lts.Reachable (sys Server) accepted :=
    .start ⟨_, _, _, _, _, _, _, { Owed.none with accepted := true }, _, ⟨rfl, rfl⟩, rfl⟩
  exact ⟨hreach, by decide +kernel, woken_driver_rests hreach (Nat.zero_le _) (by decide) fun _ => blank⟩

end Paced
end HexNet
