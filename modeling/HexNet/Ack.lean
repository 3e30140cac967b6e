/-
Delivery tracking (`ack.rs`): what got through, what did not, and how long
the round trip takes.

`notify` is a callback in the source; here each operation returns what it
was called with, in order. A notice carries the sequence of the packet it is
about beside what the callback sees: the callback cannot tell two packets
apart, and the properties are about packets.
-/
import HexNet.Config
import HexNet.Seq

namespace HexNet.Ack

/-- A packet this far behind the largest acknowledged one is declared lost. -/
def reorderThreshold : Nat := 3

def timeThresholdNumerator : Nat := 9
def timeThresholdDenominator : Nat := 8

/-- Floor for every timer. -/
def timerGranularity : Span := Span.fromMillis 2

/-- Assumed round trip before the first measurement. -/
def initialRtt : Span := Span.fromMillis 100

/-- Packets sent per probe timeout. -/
def probePackets : Nat := 2

def minRttWindow : Nat := 10 * 1000000000
def recentRttWindow : Nat := 500 * 1000000

/-- Consecutive probe timeouts without an acknowledgement, bounded at `6`. -/
structure ProbeBackoff where
  count : Nat
  le : count ≤ 6

namespace ProbeBackoff

def none : ProbeBackoff := ⟨0, by decide⟩
def factor (b : ProbeBackoff) : Nat := 1 <<< b.count
def doubled (b : ProbeBackoff) : ProbeBackoff := ⟨if 6 < b.count + 1 then 6 else b.count + 1, by
  split <;> omega⟩

end ProbeBackoff

/-- What became of a packet. -/
inductive Resolved (P : Type)
  | acked (record : P)
  | lost (record : P)
  | spurious
deriving DecidableEq

/-- What `notify` is called with, and which packet it is about. -/
structure Notice (P : Type) where
  sequence : Nat
  what : Resolved P
deriving DecidableEq

/-- What an outgoing packet asks of the ledger. -/
inductive Outgoing (P : Type)
  | ackOnly
  | eliciting (record : P)

inductive State (P : Type)
  /-- The record is held here until the packet resolves. -/
  | inFlight (record : P)
  | acked
  /-- Declared lost. Not final: a late acknowledgement can still arrive. -/
  | lost
deriving DecidableEq

structure Sent (P : Type) where
  sentAt : Timestamp
  state : State P
deriving DecidableEq

/-! ## The round-trip estimate -/

/-- Minimum over a sliding window of `window` nanoseconds, kept as two halves. -/
structure WindowedMin (window : Nat) where
  current : Span
  previous : Span
  epoch : Timestamp

namespace WindowedMin

variable {window : Nat}

def new (now : Timestamp) (sample : Span) : WindowedMin window := ⟨sample, sample, now⟩

def update (w : WindowedMin window) (now : Timestamp) (sample : Span) : WindowedMin window :=
  if window / 2 ≤ (now.since w.epoch).nanos then ⟨sample, w.current, now⟩
  else { w with current := w.current.min sample }

def get (w : WindowedMin window) : Span := w.current.min w.previous

end WindowedMin

structure Estimate where
  latest : Span
  smoothed : Span
  variation : Span
  min : WindowedMin minRttWindow
  recent : WindowedMin recentRttWindow

/-- `none` until the first sample. -/
structure Rtt where
  estimate : Option Estimate

namespace Rtt

def default : Rtt := ⟨none⟩

def smoothed (r : Rtt) : Span := r.estimate.elim initialRtt (·.smoothed)
def latest (r : Rtt) : Span := r.estimate.elim initialRtt (·.latest)
def variation (r : Rtt) : Span := r.estimate.elim (initialRtt.scaled 1 2) (·.variation)
def min (r : Rtt) : Option Span := r.estimate.map (·.min.get)
def recentMin (r : Rtt) : Option Span := r.estimate.map (·.recent.get)

/-- `(average * weight + sample) / divisor` in `u64`, as release builds compute it. -/
def weighted (average : Span) (weight : Nat) (sample : Span) (divisor : Nat) : Span :=
  ⟨(average.nanos * weight + sample.nanos) % 2 ^ 64 / divisor,
    Nat.lt_of_le_of_lt (Nat.div_le_self _ _) (Nat.mod_lt _ (by decide))⟩

def update (r : Rtt) (now : Timestamp) (sample ackDelay : Span) : Rtt :=
  match r.estimate with
  | none => ⟨some ⟨sample, sample, sample.scaled 1 2, .new now sample, .new now sample⟩⟩
  | some e =>
    let minimum := e.min.update now sample
    let corrected := sample.saturatingSub ackDelay
    let adjusted := if minimum.get ≤ corrected then corrected else sample
    let deviation := adjusted.absDiff e.smoothed
    ⟨some
      { latest := sample
        smoothed := weighted e.smoothed 7 adjusted 8
        variation := weighted e.variation 3 deviation 4
        min := minimum
        recent := e.recent.update now sample }⟩

end Rtt

/-! ## The ledger -/

/-- Sender-side delivery tracking for one connection, over a ring of `N` slots. -/
structure Delivery (P : Type) (N : Nat) [NeZero N] where
  sent : SequenceBuffer (Sent P) N
  /-- Highest sequence handed to `onSent`. -/
  largestSent : Option Nat
  /-- No packet before this one is in flight. -/
  oldestUnresolved : Nat
  largestAcked : Option Nat
  /-- When an ack-eliciting packet last went out. -/
  lastEliciting : Timestamp
  rtt : Rtt
  /-- Tracked packets whose fate is unknown. -/
  inFlight : Nat
  probes : ProbeBackoff
  peerAckDelay : Span

namespace Delivery

variable {P : Type} {N : Nat} [NeZero N]

def new (now : Timestamp) (peerAckDelay : MaxAckDelay) : Delivery P N where
  sent := .empty
  largestSent := none
  oldestUnresolved := Sequence.first
  largestAcked := none
  lastEliciting := now
  rtt := .default
  inFlight := 0
  probes := .none
  peerAckDelay := peerAckDelay.get

def onPathChange (d : Delivery P N) : Delivery P N := { d with rtt := .default, probes := .none }

/-- The oldest packet still in flight, if any. -/
def oldestInFlight (d : Delivery P N) : Option (Sent P) :=
  (d.sent.get d.oldestUnresolved).filter fun record =>
    match record.state with
    | .inFlight _ => true
    | _ => false

def lossDelay (d : Delivery P N) : Span :=
  ((d.rtt.smoothed.max d.rtt.latest).scaled timeThresholdNumerator timeThresholdDenominator).max
    timerGranularity

/-- When the time rule next declares a loss. -/
def lossTime (d : Delivery P N) : Option Timestamp :=
  match d.largestAcked with
  | none => none
  | some largestAcked =>
    if largestAcked ≤ d.oldestUnresolved then none
    else d.oldestInFlight.map fun record => record.sentAt.saturatingAdd d.lossDelay

/-- When the tail of the flight is owed a probe, if anything is in flight. -/
def probeDeadline (d : Delivery P N) : Option Timestamp :=
  d.oldestInFlight.map fun _ =>
    let base := (d.rtt.smoothed.saturatingAdd
      ((d.rtt.variation.saturatingMul 4).max timerGranularity)).saturatingAdd d.peerAckDelay
    d.lastEliciting.saturatingAdd (base.saturatingMul d.probes.factor)

/-- When `onTimeout` next has work, if anything is outstanding. -/
def nextTimeout (d : Delivery P N) : Option Timestamp :=
  Timestamp.earliest d.lossTime d.probeDeadline

/-- The loop of `advance_oldest`, over the sequences up to the largest sent. -/
def advanceLoop (d : Delivery P N) : Nat → Nat → Nat
  | 0, seq => seq
  | n + 1, seq =>
    if ({ d with oldestUnresolved := seq }.oldestInFlight).isNone then d.advanceLoop n (seq + 1)
    else seq

def advanceOldest (d : Delivery P N) : Delivery P N :=
  match d.largestSent with
  | none => d
  | some largestSent =>
    { d with oldestUnresolved := d.advanceLoop (largestSent + 1 - d.oldestUnresolved) d.oldestUnresolved }

/-- Records a packet on its way out. A still-unresolved packet whose slot
this one takes is lost. -/
def onSent (d : Delivery P N) (now : Timestamp) (sequence : Nat) (outgoing : Outgoing P) :
    Delivery P N × List (Notice P) :=
  let d := { d with largestSent := some (d.largestSent.elim sequence fun largest => max largest sequence) }
  match outgoing with
  | .ackOnly => (d.advanceOldest, [])
  | .eliciting record =>
    let inserted := d.sent.insert sequence ⟨now, .inFlight record⟩
    let d := { d with lastEliciting := now, inFlight := d.inFlight + 1, sent := inserted.1 }
    match inserted.2 with
    | some ⟨seq, ⟨_, .inFlight record⟩⟩ =>
      ({ d with inFlight := d.inFlight - 1 }.advanceOldest, [⟨seq, .lost record⟩])
    | _ => (d.advanceOldest, [])

/-- Marks one packet delivered. Answers its send time only when this
confirmed a packet still in flight. -/
def resolve (d : Delivery P N) (seq : Nat) :
    Delivery P N × List (Notice P) × Option Timestamp :=
  match d.sent.get seq with
  | none => (d, [], none)
  | some record =>
    let d := { d with sent := d.sent.set seq ⟨record.sentAt, .acked⟩ }
    match record.state with
    | .acked => (d, [], none)
    | .lost => (d, [⟨seq, .spurious⟩], none)
    | .inFlight payload =>
      ({ d with inFlight := d.inFlight - 1 }, [⟨seq, .acked payload⟩], some record.sentAt)

/-- The scan of `detect_lost` over the next `n` sequences, up to the largest
acknowledged. -/
def scanLost (now : Timestamp) (delay : Span) (threshold : Option Nat) :
    Nat → Nat → Delivery P N → Delivery P N × List (Notice P)
  | 0, _, d => (d, [])
  | n + 1, seq, d =>
    match d.sent.get seq with
    | some ⟨sentAt, .inFlight payload⟩ =>
      let byCount := threshold.any fun t => seq ≤ t
      let byTime := decide (delay ≤ now.since sentAt)
      if byCount || byTime then
        let rest := scanLost now delay threshold n (seq + 1)
          { d with sent := d.sent.set seq ⟨sentAt, .lost⟩, inFlight := d.inFlight - 1 }
        (rest.1, ⟨seq, .lost payload⟩ :: rest.2)
      else (d, [])
    | _ => scanLost now delay threshold n (seq + 1) d

/-- Declares overdue packets older than the largest acknowledged one lost. -/
def detectLost (d : Delivery P N) (now : Timestamp) : Delivery P N × List (Notice P) :=
  match d.largestAcked with
  | none => (d, [])
  | some largestAcked =>
    let scanned := scanLost now d.lossDelay (Sequence.checkedSub largestAcked reorderThreshold)
      (largestAcked - d.oldestUnresolved) d.oldestUnresolved d
    (scanned.1.advanceOldest, scanned.2)

/-- The history bits of an acknowledgement from bit `offset` on: bit `i` means
`ack - 1 - i` arrived. The last part answers whether any was confirmed. -/
def resolveBits (ack : Nat) (bits : BitVec 32) :
    Nat → Nat → Delivery P N → Delivery P N × List (Notice P) × Bool
  | 0, _, d => (d, [], false)
  | n + 1, offset, d =>
    match if bits.getLsbD offset then Sequence.checkedSub ack (offset + 1) else none with
    | none => resolveBits ack bits n (offset + 1) d
    | some seq =>
      let one := d.resolve seq
      let rest := resolveBits ack bits n (offset + 1) one.1
      (rest.1, one.2.1 ++ rest.2.1, one.2.2.isSome || rest.2.2)

/-- The newest acknowledgement moves `largest_acked`, and gives the one timing
sample its header can. -/
def onNewest (d : Delivery P N) (now : Timestamp) (ack : Nat) (sentAt : Option Timestamp)
    (ackDelay : Option Span) : Delivery P N :=
  if d.largestAcked.all fun largest => largest < ack then
    let d := { d with largestAcked := some ack }
    match sentAt, ackDelay with
    | some sentAt, some ackDelay => { d with rtt := d.rtt.update now (now.since sentAt) ackDelay }
    | _, _ => d
  else d

/-- Applies an acknowledgement, then runs loss detection against it. -/
def onAck (d : Delivery P N) (now : Timestamp) (ack : Nat) (ackDelay : Option Span)
    (bits : BitVec 32) : Delivery P N × List (Notice P) :=
  let newest := d.resolve ack
  let others := resolveBits ack bits 32 0 newest.1
  let d := others.1.onNewest now ack newest.2.2 ackDelay
  let d := if newest.2.2.isSome || others.2.2 then { d with probes := .none } else d
  let lost := d.detectLost now
  (lost.1, newest.2.1 ++ others.2.1 ++ lost.2)

/-- Runs loss detection, and reports how many probes are owed if the probe
timeout expired. -/
def onTimeout (d : Delivery P N) (now : Timestamp) :
    Delivery P N × List (Notice P) × Option Nat :=
  let lost := d.detectLost now
  match lost.1.probeDeadline with
  | none => (lost.1, lost.2, none)
  | some deadline =>
    if now < deadline then (lost.1, lost.2, none)
    else ({ lost.1 with probes := lost.1.probes.doubled }, lost.2, some probePackets)

end Delivery

/-! ## The delay field -/

/-- Quantizes an acknowledgement delay for the header; the largest value means
"at least this long". -/
def encodeAckDelay (delay : Span) : UInt8 :=
  let units := delay.nanos / ackDelayUnit.nanos
  if units < 2 ^ 8 then UInt8.ofNat units else 255

/-- The delay a header reports, or `none` when it saturated. -/
def decodeAckDelay (encoded : UInt8) : Option Span :=
  if encoded ≠ 255 then some (ackDelayUnit.saturatingMul encoded.toNat) else none

end HexNet.Ack
