/-
The send allowance (`budget.rs`): a token bucket counted in bytes with 32
fractional bits, and the controller that moves its rate.

A bucket carries what `set_rate` keeps together: the rate is one the
configuration admits, what it earns and holds follow from it, and the level
never passes the capacity. From that the one fact the scheduler rests on: a
deadline `readyFor` gave, once it has come, finds the bytes it promised.
-/
import HexNet.Ack
import Mathlib.Order.MinMax
import Mathlib.Order.Nat

namespace HexNet

def fractionBits : Nat := 32
def burstFraction : Nat := 4
def lossThresholdNumerator : Nat := 1
def lossThresholdDenominator : Nat := 50
def queueThresholdDivisor : Nat := 4
def minQueueDelay : Span := Span.fromMillis 10
def backoffNumerator : Nat := 3
def backoffDenominator : Nat := 4
def recoveryFraction : Nat := 16
def minAssessInterval : Span := Span.fromMillis 100
def minLossSamples : Nat := 20
def queuePersistence : Nat := 2

/-- Bytes per nanosecond in fixed point. -/
def refillOf (rate : Nat) : Nat := (rate <<< fractionBits) / 1000000000

/-- What `elapsed` earns, saturating. -/
def earned (refill : Nat) (elapsed : Span) : Nat := min (elapsed.nanos * refill) (2 ^ 64 - 1)

/-- How long `deficit` fixed-point bytes take to earn, rounded up. -/
def timeFor (refill deficit : Nat) : Span := .saturated ((deficit + refill - 1) / refill)

/-- Bytes in fixed point. -/
def tokensOf (bytes : Nat) : Nat := bytes <<< fractionBits

def wholeBytes (tokens : Nat) : Nat := tokens >>> fractionBits

/-- A quarter second of rate, but never less than one maximum-size packet. -/
def capacityFor (rate : Nat) (config : BudgetConfig) : Nat :=
  tokensOf (max (rate / burstFraction) config.maxPacket)

structure Budget where
  config : BudgetConfig
  rate : Nat
  refill : Nat
  tokens : Nat
  capacity : Nat
  lastRefill : Timestamp
  lastAssessed : Timestamp
  windowSent : Nat
  windowLost : Nat
  queueSignals : Nat
  rate_ge : minRate ≤ rate
  rate_le : rate ≤ config.rate
  refill_eq : refill = refillOf rate
  capacity_eq : capacity = capacityFor rate config
  tokens_le : tokens ≤ capacity

namespace Budget

def new (now : Timestamp) (config : BudgetConfig) : Budget where
  config
  rate := config.rate
  refill := refillOf config.rate
  tokens := capacityFor config.rate config
  capacity := capacityFor config.rate config
  lastRefill := now
  lastAssessed := now
  windowSent := 0
  windowLost := 0
  queueSignals := 0
  rate_ge := config.rate_ge
  rate_le := le_rfl
  refill_eq := rfl
  capacity_eq := rfl
  tokens_le := le_rfl

/-- Earns what the time since the last refill is worth. -/
def advance (b : Budget) (now : Timestamp) : Budget :=
  let elapsed := now.since b.lastRefill
  if elapsed.isZero then b
  else
    { b with
      lastRefill := now
      tokens := min (min (b.tokens + earned b.refill elapsed) (2 ^ 64 - 1)) b.capacity
      tokens_le := min_le_right _ _ }

/-- Bytes the next datagram may spend, header and tag included. -/
def available (b : Budget) (now : Timestamp) : Budget × Nat :=
  let b := b.advance now
  (b, min (wholeBytes b.tokens) b.config.maxPacket)

/-- When the allowance will cover a datagram carrying `payloadLen` bytes of
message. -/
def readyFor (b : Budget) (payloadLen : Nat) : Timestamp :=
  let datagram := headerMaxLen + tagLen + messageFrameOverhead + payloadLen
  let needed := min (min datagram (2 ^ 32 - 1)) b.config.maxPacket
  let deficit := tokensOf needed - b.tokens
  if deficit = 0 then b.lastRefill else b.lastRefill.saturatingAdd (timeFor b.refill deficit)

/-- Spends a datagram's bytes. -/
def onSent (b : Budget) (len : Nat) (eliciting : Bool) : Budget :=
  { b with
    tokens := b.tokens - tokensOf len
    windowSent := if eliciting then min (b.windowSent + 1) (2 ^ 32 - 1) else b.windowSent
    tokens_le := (Nat.sub_le _ _).trans b.tokens_le }

def onLost (b : Budget) : Budget := { b with windowLost := min (b.windowLost + 1) (2 ^ 32 - 1) }

def onSpurious (b : Budget) : Budget := { b with windowLost := b.windowLost - 1 }

/-- The rate, what it earns and the burst it allows, set together. -/
def setRate (b : Budget) (rate : Nat) (rate_ge : minRate ≤ rate) (rate_le : rate ≤ b.config.rate) : Budget :=
  { b with
    rate
    refill := refillOf rate
    capacity := capacityFor rate b.config
    tokens := min b.tokens (capacityFor rate b.config)
    rate_ge, rate_le
    refill_eq := rfl
    capacity_eq := rfl
    tokens_le := min_le_right _ _ }

def decrease (b : Budget) : Budget :=
  b.setRate (max (b.rate / backoffDenominator * backoffNumerator) minRate) (le_max_right _ _) <| by
    have h₁ := b.rate_le
    have h₂ := b.config.rate_ge
    refine max_le ?_ h₂
    exact (Nat.mul_le_mul_left _ (by decide)).trans ((Nat.div_mul_le_self b.rate backoffDenominator).trans h₁)

def increase (b : Budget) : Budget :=
  let step := max (b.config.rate / recoveryFraction) 1
  b.setRate (min (min (b.rate + step) (2 ^ 32 - 1)) b.config.rate)
    (by
      have h₁ := b.rate_ge
      have h₂ := b.rate_le
      have h₃ := b.config.rate_lt
      omega)
    (min_le_right _ _)

/-- A new path has none of the old one's history. -/
def onPathChange (b : Budget) (now : Timestamp) : Budget :=
  { b.setRate b.config.rate b.config.rate_ge le_rfl with
    lastAssessed := now, windowSent := 0, windowLost := 0, queueSignals := 0 }

def assessInterval (rtt : Ack.Rtt) : Span := rtt.smoothed.max minAssessInterval

/-- The path's floor has risen by more than jitter explains. -/
def isQueueing (rtt : Ack.Rtt) : Bool :=
  match rtt.min, rtt.recentMin with
  | some baseline, some recent =>
    let margin := (Span.saturated (baseline.nanos / queueThresholdDivisor)).max minQueueDelay
    decide (baseline.saturatingAdd margin < recent)
  | _, _ => false

/-- Moves the rate once a round trip, on enough evidence to read. -/
def assess (b : Budget) (now : Timestamp) (rtt : Ack.Rtt) : Budget :=
  if now.since b.lastAssessed < assessInterval rtt then b
  else if b.windowSent < minLossSamples then { b with lastAssessed := now }
  else
    let lossy := decide (b.windowSent * lossThresholdNumerator < b.windowLost * lossThresholdDenominator)
    let queueSignals := if isQueueing rtt then min (b.queueSignals + 1) 255 else 0
    let read := { b with lastAssessed := now, windowSent := 0, windowLost := 0 }
    if lossy ∨ queuePersistence ≤ queueSignals then { read with queueSignals := 0 }.decrease
    else { read with queueSignals }.increase

/-! ## What the controller leaves -/

/-- Moving the rate refills nothing. -/
theorem assess_level (b : Budget) (now : Timestamp) (rtt : Ack.Rtt) :
    (b.assess now rtt).lastRefill = b.lastRefill ∧ (b.assess now rtt).tokens ≤ b.tokens := by
  unfold assess
  split
  · exact ⟨rfl, le_rfl⟩
  · split
    · exact ⟨rfl, le_rfl⟩
    · generalize (if isQueueing rtt then min (b.queueSignals + 1) 255 else 0) = queueSignals
      dsimp only
      split <;> exact ⟨rfl, min_le_left _ _⟩

theorem assess_config (b : Budget) (now : Timestamp) (rtt : Ack.Rtt) : (b.assess now rtt).config = b.config := by
  unfold assess
  split
  · rfl
  · split
    · rfl
    · generalize (if isQueueing rtt then min (b.queueSignals + 1) 255 else 0) = queueSignals
      dsimp only
      split <;> rfl

@[simp] theorem onSent_lastRefill (b : Budget) (len : Nat) (eliciting : Bool) :
    (b.onSent len eliciting).lastRefill = b.lastRefill := by simp only [onSent]

theorem onSent_tokens (b : Budget) (len : Nat) (eliciting : Bool) :
    (b.onSent len eliciting).tokens = b.tokens - tokensOf len := by simp only [onSent]

/-! ## The deadline's arithmetic -/

theorem tokensOf_eq (bytes : Nat) : tokensOf bytes = bytes * 2 ^ 32 := Nat.shiftLeft_eq _ _

theorem refill_pos (b : Budget) : 0 < b.refill := by
  have h := b.rate_ge
  rw [b.refill_eq, refillOf, Nat.shiftLeft_eq]
  refine Nat.div_pos ?_ (by decide)
  unfold minRate at h
  unfold fractionBits
  omega

theorem maxPacket_le_capacity (b : Budget) : tokensOf b.config.maxPacket ≤ b.capacity := by
  rw [b.capacity_eq, capacityFor, tokensOf_eq, tokensOf_eq]
  exact Nat.mul_le_mul_right _ (le_max_right _ _)

/-- A message's datagram is within every cap the configuration admits. -/
theorem datagram_le (b : Budget) {len : Nat} (hlen : len ≤ maxMessage) :
    headerMaxLen + tagLen + messageFrameOverhead + len ≤ b.config.maxPacket := by
  have h := b.config.packet_ge
  unfold minPacket at h
  omega

/-- The deadline is when the deficit of the message's datagram is earned. -/
theorem readyFor_eq (b : Budget) {len : Nat} (hlen : len ≤ maxMessage) :
    b.readyFor len =
      if tokensOf (headerMaxLen + tagLen + messageFrameOverhead + len) ≤ b.tokens then b.lastRefill
      else b.lastRefill.saturatingAdd
        (timeFor b.refill (tokensOf (headerMaxLen + tagLen + messageFrameOverhead + len) - b.tokens)) := by
  have hcap := b.datagram_le hlen
  have hmax := b.config.packet_le
  have hneeded : min (min (headerMaxLen + tagLen + messageFrameOverhead + len) (2 ^ 32 - 1)) b.config.maxPacket =
      headerMaxLen + tagLen + messageFrameOverhead + len := by
    unfold maxDatagram at hmax
    omega
  simp only [readyFor, hneeded, Nat.sub_eq_zero_iff_le]

/-- The deficit is earned by then, and not before. -/
theorem timeFor_le_iff {refill deficit k : Nat} (hpos : 0 < refill) (hlt : deficit < 2 ^ 64) :
    (timeFor refill deficit).nanos ≤ k ↔ deficit ≤ k * refill := by
  have hceil : ∀ k, (deficit + refill - 1) / refill ≤ k ↔ deficit ≤ k * refill := fun k => by
    rw [← Nat.lt_succ_iff, Nat.div_lt_iff_lt_mul hpos, Nat.succ_mul]
    omega
  have hquot := (hceil deficit).2 (Nat.le_mul_of_pos_right deficit hpos)
  have hval : (timeFor refill deficit).nanos = (deficit + refill - 1) / refill := by
    simp only [timeFor, Span.saturated_nanos]
    omega
  rw [hval]
  exact hceil k

/-! ## Earning -/

@[simp] theorem advance_config (b : Budget) (now : Timestamp) : (b.advance now).config = b.config := by
  unfold advance
  dsimp only
  split <;> rfl

theorem advance_lastRefill (b : Budget) {now : Timestamp} (h : b.lastRefill ≤ now) :
    (b.advance now).lastRefill = now := by
  rw [Timestamp.le_iff] at h
  unfold advance
  dsimp only
  split
  next hzero =>
    have hz : now.nanos - b.lastRefill.nanos = 0 := by simpa [Span.isZero] using hzero
    exact Timestamp.ext (by omega)
  · rfl

/-- A time that is not past earns nothing. -/
theorem advance_early {b : Budget} {now : Timestamp} (h : now ≤ b.lastRefill) : b.advance now = b := by
  refine if_pos ?_
  rw [Timestamp.le_iff] at h
  simp only [Span.isZero, Timestamp.since_nanos, beq_iff_eq]
  omega

theorem capacity_lt (b : Budget) : b.capacity < 2 ^ 64 := by
  have hrate := b.rate_le
  have hlt := b.config.rate_lt
  have hpacket := b.config.packet_le
  rw [b.capacity_eq, capacityFor, tokensOf_eq]
  have hbytes : max (b.rate / burstFraction) b.config.maxPacket < 2 ^ 32 := by
    have hquarter := Nat.div_le_self b.rate burstFraction
    unfold maxDatagram at hpacket
    omega
  omega

/-- **The level after any time**: nothing saturates below the capacity. -/
theorem advance_tokens (b : Budget) (now : Timestamp) :
    (b.advance now).tokens = min (b.tokens + (now.nanos - b.lastRefill.nanos) * b.refill) b.capacity := by
  have hle := b.tokens_le
  have hcap := b.capacity_lt
  unfold advance
  dsimp only
  split
  next hzero =>
    have hz : now.nanos - b.lastRefill.nanos = 0 := by simpa [Span.isZero] using hzero
    rw [hz, Nat.zero_mul, Nat.add_zero, Nat.min_eq_left hle]
  · dsimp only [earned, Timestamp.since_nanos]
    omega

theorem le_wholeBytes {bytes tokens : Nat} : bytes ≤ wholeBytes tokens ↔ tokensOf bytes ≤ tokens := by
  rw [wholeBytes, Nat.shiftRight_eq_div_pow, Nat.le_div_iff_mul_le (by decide), tokensOf_eq, fractionBits]

/-- A message's datagram is covered once its bytes are earned. -/
theorem le_available_iff (b : Budget) (now : Timestamp) {len : Nat} (hlen : len ≤ maxMessage) :
    headerMaxLen + tagLen + messageFrameOverhead + len ≤ (b.available now).2 ↔
      tokensOf (headerMaxLen + tagLen + messageFrameOverhead + len) ≤
        b.tokens + (now.nanos - b.lastRefill.nanos) * b.refill := by
  have hcap := b.datagram_le hlen
  have hneed : tokensOf (headerMaxLen + tagLen + messageFrameOverhead + len) ≤ b.capacity := by
    refine le_trans ?_ b.maxPacket_le_capacity
    rw [tokensOf_eq, tokensOf_eq]
    exact Nat.mul_le_mul_right _ hcap
  show _ ≤ min (wholeBytes (b.advance now).tokens) (b.advance now).config.maxPacket ↔ _
  rw [advance_config, le_min_iff, le_wholeBytes, advance_tokens, le_min_iff]
  exact ⟨fun h => h.1.1, fun h => ⟨⟨h, hneed⟩, hcap⟩⟩

/-! ## What a deadline promises -/

/-- The deadline for `len` bytes is one the clock can tell. -/
def Unsaturated (b : Budget) (len : Nat) : Prop :=
  b.lastRefill.nanos +
    (timeFor b.refill (tokensOf (headerMaxLen + tagLen + messageFrameOverhead + len) - b.tokens)).nanos < 2 ^ 64

/-- **A deadline is neither early nor late**: it has come exactly when the
bytes it is for are there. -/
theorem readyFor_le_iff (b : Budget) {now : Timestamp} {len : Nat} (hlen : len ≤ maxMessage)
    (hback : b.lastRefill ≤ now) (hsum : b.Unsaturated len) :
    b.readyFor len ≤ now ↔ headerMaxLen + tagLen + messageFrameOverhead + len ≤ (b.available now).2 := by
  have hcap := b.datagram_le hlen
  have hmax := b.config.packet_le
  rw [b.le_available_iff now hlen, readyFor_eq b hlen]
  unfold Unsaturated at hsum
  generalize headerMaxLen + tagLen + messageFrameOverhead + len = datagram at hcap hsum ⊢
  rw [Timestamp.le_iff] at hback
  by_cases hfull : tokensOf datagram ≤ b.tokens
  · rw [if_pos hfull]
    exact iff_of_true hback (hfull.trans (Nat.le_add_right _ _))
  · have hdeficit : tokensOf datagram - b.tokens < 2 ^ 64 := by
      rw [tokensOf_eq]
      unfold maxDatagram at hmax
      omega
    have htime := timeFor_le_iff (k := now.nanos - b.lastRefill.nanos) b.refill_pos hdeficit
    rw [if_neg hfull, Timestamp.le_iff, Timestamp.saturatingAdd_nanos]
    generalize (timeFor b.refill (tokensOf datagram - b.tokens)).nanos = wait at hsum htime ⊢
    generalize (now.nanos - b.lastRefill.nanos) * b.refill = gain at htime ⊢
    omega

/-- A deadline that has come finds the bytes it promised, unless it is the last
instant the clock can tell and the deadline a saturated one. -/
theorem available_of_ready (b : Budget) {now : Timestamp} {len : Nat} (hlen : len ≤ maxMessage)
    (hback : b.lastRefill ≤ now) (hend : now.nanos < 2 ^ 64 - 1 ∨ b.Unsaturated len) (hready : b.readyFor len ≤ now) :
    headerMaxLen + tagLen + messageFrameOverhead + len ≤ (b.available now).2 := by
  by_cases hfull : tokensOf (headerMaxLen + tagLen + messageFrameOverhead + len) ≤ b.tokens
  · exact (b.le_available_iff now hlen).2 (hfull.trans (Nat.le_add_right _ _))
  · refine (b.readyFor_le_iff hlen hback (hend.elim (fun hlt => ?_) id)).1 hready
    rw [readyFor_eq b hlen, if_neg hfull, Timestamp.le_iff, Timestamp.saturatingAdd_nanos] at hready
    unfold Unsaturated
    omega

end Budget
end HexNet
