/-
Acknowledgements owed and how long they were held.

Beside the connection stand the eliciting packets it accepted and has sent
nothing after. What any call does to the receiving side is said once
(`Receives`): nothing, a number remembered, a packet recorded, or a packet sent
with the whole acknowledgement state on it. Three times are then kept in order:
when the hold began, when a packet of acknowledgements alone went out last, and
when each packet arrived. The deadline is the later of the first two and the
delay after; the delay a header reports runs from the arrival it names.
-/
import HexNet.Numbering

namespace HexNet

open Connection

/-! ## The delay field -/

/-- A delay the field can hold is reported to within a unit, and never over. -/
theorem Ack.decode_encodeAckDelay {delay : Span} (h : delay.nanos ≤ ackDelayUnit.nanos * 254) :
    (Ack.encodeAckDelay delay).toNat < 255 ∧ ∃ reported, Ack.decodeAckDelay (Ack.encodeAckDelay delay) = some reported ∧
      reported.nanos ≤ delay.nanos ∧ delay.nanos < reported.nanos + ackDelayUnit.nanos := by
  have hunit : ackDelayUnit.nanos = 250000 := by decide
  rw [hunit] at h ⊢
  have hunits : delay.nanos / 250000 ≤ 254 := by omega
  have hencode : Ack.encodeAckDelay delay = UInt8.ofNat (delay.nanos / 250000) := by
    unfold Ack.encodeAckDelay
    rw [hunit]
    exact if_pos (by omega)
  have hval : (UInt8.ofNat (delay.nanos / 250000)).toNat = delay.nanos / 250000 := by
    rw [UInt8.toNat_ofNat']
    omega
  rw [hencode]
  refine ⟨by omega, ackDelayUnit.saturatingMul (delay.nanos / 250000), ?_, ?_⟩
  · have hne : UInt8.ofNat (delay.nanos / 250000) ≠ 255 := by
      intro h255
      have h255 := congrArg UInt8.toNat h255
      rw [hval] at h255
      exact absurd h255 (by show ¬ _ = 255; omega)
    unfold Ack.decodeAckDelay
    rw [if_pos hne, hval]
  · rw [Span.saturatingMul_nanos, hunit]
    omega

/-! ## What a call does to the receiving side -/

theorem Acks.record_owed (a : Acks) (now : Timestamp) (inOrder : Bool) : (a.record now inOrder).owed ≠ .nothing := by
  unfold record
  cases inOrder with
  | false => exact AckOwed.noConfusion
  | true => cases a.owed <;> exact AckOwed.noConfusion

/-- A hold begins with the first packet it is for. -/
theorem Acks.record_held {a : Acks} {now t : Timestamp} {inOrder : Bool} (h : (a.record now inOrder).owed = .held t) :
    a.owed = .held t ∨ a.owed = .nothing ∧ t = now := by
  unfold record at h
  cases inOrder with
  | false => cases h
  | true =>
    cases howed : a.owed with
    | nothing =>
      rw [howed] at h
      cases h
      exact .inr ⟨rfl, rfl⟩
    | held since =>
      rw [howed] at h
      exact .inl h
    | atOnce =>
      rw [howed] at h
      cases h

theorem ReceiveWindow.insert_newest (w : ReceiveWindow) (seq : Nat) :
    (w.insert seq).newest = some (max (w.newest.getD seq) seq) := by
  unfold insert
  cases hnewest : w.newest with
  | none => simp
  | some newest =>
    dsimp only
    by_cases hold : seq ≤ newest
    · rw [if_pos hold, Option.getD_some, Nat.max_eq_left hold]
      split
      · rfl
      · exact hnewest
    · rw [if_neg hold, Option.getD_some, Nat.max_eq_right (by omega)]

/-- What is opened was asked of the window first. -/
theorem PacketCrypto.decrypt_checked {c c' : PacketCrypto} {datagram : List UInt8} {opened : Decrypted}
    (h : c.decrypt datagram = .ok (c', opened)) : c.replay.check opened.sequence = .ok () := by
  unfold decrypt at h
  split at h
  · cases h
  · split at h
    · cases h
    · split at h
      · cases h
      · split at h
        · cases h
        next hcheck =>
          dsimp only at h
          split at h
          · cases h
          · cases h
            exact hcheck

namespace Connection

variable {R : Type}

/-- What is owed to the peer, and the packets it is owed for, as they were. -/
structure SameOwed (c c' : Connection R) : Prop where
  acks_eq : c'.acks = c.acks
  replay_eq : c'.crypto.replay = c.crypto.replay
  acked_eq : c'.crypto.acked = c.crypto.acked
  newest_eq : c'.crypto.newestAckedAt = c.crypto.newestAckedAt

theorem SameOwed.refl (c : Connection R) : c.SameOwed c := ⟨rfl, rfl, rfl, rfl⟩

theorem SameOwed.trans {c₁ c₂ c₃ : Connection R} (h₁ : c₁.SameOwed c₂) (h₂ : c₂.SameOwed c₃) : c₁.SameOwed c₃ :=
  ⟨h₂.acks_eq.trans h₁.acks_eq, h₂.replay_eq.trans h₁.replay_eq, h₂.acked_eq.trans h₁.acked_eq,
    h₂.newest_eq.trans h₁.newest_eq⟩

theorem Touched.sameOwed {c c' : Connection R} (h : c.Touched c') : c.SameOwed c' :=
  ⟨h.acks_eq, by rw [h.crypto_eq], by rw [h.crypto_eq], by rw [h.crypto_eq]⟩

theorem close_sameOwed (c : Connection R) (reason : CloseReason) : c.SameOwed (c.close reason) := by
  unfold close
  split <;> exact ⟨rfl, rfl, rfl, rfl⟩

theorem handleAck_sameOwed (c : Connection R) (now : Timestamp) (header : Header) :
    c.SameOwed (c.handleAck now header) := by
  unfold handleAck
  split <;> exact ⟨rfl, rfl, rfl, rfl⟩

theorem assessed_sameOwed (c : Connection R) (now : Timestamp) : c.SameOwed (c.assessed now) := by
  constructor <;> simp only [assessed]

theorem filledWith_sameOwed (c : Connection R) (now : Timestamp) (filled : Channels) :
    c.SameOwed (c.filledWith now filled) := by
  constructor <;> simp only [filledWith, controlled, prepared]

/-- A packet sent carries the whole acknowledgement state. -/
theorem transmitted_acks (c : Connection R) (now : Timestamp) (crypto : PacketCrypto) (staged : PacketMessages)
    (len : Nat) (eliciting : Bool) : (c.transmitted now crypto staged len eliciting).acks = c.acks.sent now eliciting := by
  rw [transmitted, (noticeSent_same _).2.2.2.2.2.1]
  simp only [committed, ledger, applyNotices]

section

variable [Role R] [LawfulRole R]

theorem readControl_sameOwed {c c' : Connection R} {now : Timestamp} {r r' : BitReader}
    (h : (c.readControl now).run r = .ok c' r') : c.SameOwed c' := by
  obtain rfl | ⟨reason, rfl⟩ | ⟨kind, r₁, hrole⟩ := readControl_cases h
  · exact .refl c'
  · exact ⟨rfl, rfl, rfl, rfl⟩
  · exact (LawfulRole.readControl hrole).sameOwed

theorem readFrames_sameOwed (now : Timestamp) (fuel : Nat) (c : Connection R) (r : BitReader) (eliciting : Bool) :
    c.SameOwed (readFrames now fuel c r eliciting).1 :=
  readFrames_rel SameOwed.refl SameOwed.trans readControl_sameOwed (fun _ => ⟨rfl, rfl, rfl, rfl⟩) fuel c r eliciting

theorem runTimers_sameOwed (c : Connection R) (now : Timestamp) : c.SameOwed (c.runTimers now) := by
  refine SameOwed.trans ?_ (LawfulRole.onTimeout ..).sameOwed
  split <;> exact ⟨rfl, rfl, rfl, rfl⟩

theorem handleTimeout_sameOwed (c : Connection R) (now : Timestamp) : c.SameOwed (c.handleTimeout now) := by
  unfold handleTimeout
  split
  · exact .refl c
  · split
    · exact ⟨rfl, rfl, rfl, rfl⟩
    · exact runTimers_sameOwed c now

variable [OwnOps R]

/-- The eliciting packet a call accepts: its number, and the time. -/
def accepts (c : Connection R) : Call R → Option (Nat × Timestamp)
  | .handleDatagram now _ datagram =>
    if c.lifecycle = .closed then none
    else
      match c.crypto.decrypt datagram with
      | .error _ => none
      | .ok (crypto, opened) =>
        match (({ c with crypto, lastReceived := now }.handleAck now opened.header).readBody now opened.body).2.2 with
        | .ok true => some (opened.sequence, now)
        | .ok false | .error _ => none
  | _ => none

/-- What a call can do to the receiving side. -/
inductive Receives (c : Connection R) (call : Call R) : Connection R → Prop
  | kept {c'} : c.emitted call = none → c.accepts call = none → c.SameOwed c' → Receives c call c'
  /-- A packet that carried nothing to acknowledge, or did not parse. -/
  | opened {c'} (seq : Nat) : c.emitted call = none → c.accepts call = none → c.crypto.replay.check seq = .ok () →
      { c with crypto := { c.crypto with replay := c.crypto.replay.insert seq } }.SameOwed c' → Receives c call c'
  | recorded {c'} (seq : Nat) (now : Timestamp) (inOrder : Bool) : c.emitted call = none →
      c.accepts call = some (seq, now) → call.time = some now → c.crypto.replay.check seq = .ok () →
      { c with
        crypto := { c.crypto with replay := c.crypto.replay.insert seq }.recordEliciting seq now
        acks := c.acks.record now inOrder }.SameOwed c' →
      Receives c call c'
  | sent {c'} (now : Timestamp) (eliciting : Bool) (rest : List UInt8) : call.time = some now →
      c.emitted call = some ((c.buildHeader now).bytes ++ rest) → c.accepts call = none →
      { c with acks := c.acks.sent now eliciting }.SameOwed c' → Receives c call c'

theorem handleOpened_receives {c : Connection R} {now : Timestamp} {sender : SocketAddr} {datagram : List UInt8}
    (hopen : c.lifecycle ≠ .closed) {crypto : PacketCrypto} {opened : Decrypted}
    (hdec : c.crypto.decrypt datagram = .ok (crypto, opened)) :
    c.Receives (.handleDatagram now sender datagram)
      ({ c with crypto, lastReceived := now }.handleOpened now sender opened).1 := by
  have hcheck := PacketCrypto.decrypt_checked hdec
  have haccepts : c.accepts (.handleDatagram now sender datagram) =
      match (({ c with crypto, lastReceived := now }.handleAck now opened.header).readBody now opened.body).2.2 with
      | .ok true => some (opened.sequence, now)
      | .ok false | .error _ => none := by
    rw [accepts, if_neg hopen, hdec]
  obtain rfl := PacketCrypto.decrypt_replay hdec
  generalize hbegun : ({ c with
    crypto := { c.crypto with replay := c.crypto.replay.insert opened.sequence }, lastReceived := now } :
      Connection R) = begun at haccepts ⊢
  have hread : { c with crypto := { c.crypto with replay := c.crypto.replay.insert opened.sequence } }.SameOwed
      ((begun.handleAck now opened.header).readBody now opened.body).1 := by
    refine SameOwed.trans ?_ ((handleAck_sameOwed begun now opened.header).trans (readFrames_sameOwed ..))
    rw [← hbegun]
    exact ⟨rfl, rfl, rfl, rfl⟩
  unfold handleOpened
  dsimp only
  generalize (begun.handleAck now opened.header).readBody now opened.body = r at haccepts hread ⊢
  cases hbody : r.2.2 with
  | error e =>
    rw [hbody] at haccepts
    exact .opened opened.sequence rfl haccepts hcheck (hread.trans (close_sameOwed ..))
  | ok eliciting =>
    rw [hbody] at haccepts
    have hmoved : ∀ c' : Connection R, c'.SameOwed
        (if sender ≠ c'.addr then Role.onAddressChange c' now sender opened.sequence else c') := by
      intro c'
      split
      · exact (LawfulRole.onAddressChange ..).sameOwed
      · exact .refl c'
    dsimp only [received]
    cases eliciting with
    | false => exact .opened opened.sequence rfl haccepts hcheck (hread.trans (hmoved _))
    | true =>
      refine .recorded opened.sequence now opened.inOrder rfl haccepts rfl hcheck (SameOwed.trans ?_ (hmoved _))
      rw [if_pos rfl]
      refine ⟨?_, hread.replay_eq, ?_, ?_⟩
      · dsimp only
        rw [hread.acks_eq]
      · dsimp only [PacketCrypto.recordEliciting]
        rw [hread.acked_eq]
      · dsimp only [PacketCrypto.recordEliciting]
        rw [hread.acked_eq, hread.newest_eq]

/-- **What a call does to the receiving side.** -/
theorem after_receives {c : Connection R} (h : c.channels.Intact) (call : Call R) : c.Receives call (c.after call) := by
  cases call with
  | send channel payload => exact .kept rfl rfl ⟨rfl, rfl, rfl, rfl⟩
  | close reason => exact .kept rfl rfl (close_sameOwed c reason)
  | pollEvent => exact .kept rfl rfl ⟨rfl, rfl, rfl, rfl⟩
  | own op => exact .kept rfl rfl (OwnOps.touched op c).sameOwed
  | handleTimeout now => exact .kept rfl rfl (handleTimeout_sameOwed c now)
  | handleDatagram now sender datagram =>
    show c.Receives _ (c.handleDatagram now sender datagram).1
    unfold handleDatagram
    by_cases hclosed : c.lifecycle = .closed
    · rw [if_pos hclosed]
      exact .kept rfl (if_pos hclosed) (.refl c)
    · rw [if_neg hclosed]
      cases hdec : c.crypto.decrypt datagram with
      | error e =>
        refine .kept rfl ?_ (.refl c)
        rw [accepts, if_neg hclosed, hdec]
      | ok r => exact handleOpened_receives hclosed hdec
  | pollTransmit now out =>
    rcases pollTransmit_cases h now out with ⟨-, heq⟩ | ⟨-, hbuilds⟩
    · refine .kept ?_ rfl ?_
      · show (c.pollTransmit now out).2 = none
        rw [heq]
      · show c.SameOwed (c.pollTransmit now out).1
        rw [heq]
        exact assessed_sameOwed c now
    · show c.Receives (.pollTransmit now out) (c.pollTransmit now out).1
      have hemitted : c.emitted (.pollTransmit now out) = (c.pollTransmit now out).2 := rfl
      generalize c.pollTransmit now out = r at hbuilds hemitted
      cases hbuilds with
      | aborted => exact .kept hemitted rfl ((assessed_sameOwed c now).trans (filledWith_sameOwed ..))
      | @built filled staged new w sealed =>
        refine .sent now ((c.assessed now).elicits new) (sealed.1 ++ sealed.2) rfl hemitted rfl ⟨?_, ?_, ?_, ?_⟩
        · rw [transmitted_acks]
          rfl
        · rw [transmitted_crypto]
          rfl
        · rw [transmitted_crypto]
          rfl
        · rw [transmitted_crypto]
          rfl

end

end Connection

/-! ## Packets not answered yet -/

/-- A connection, the latest time it was given, and the eliciting packets it
accepted after the last packet it sent, each with its time. -/
structure Answering (R : Type) where
  connection : Connection R
  clock : Timestamp
  unanswered : List (Nat × Timestamp)

namespace Answering

variable {R : Type} [Role R] [LawfulRole R] [OwnOps R]

def after (s : Answering R) (call : Call R) : Answering R where
  connection := s.connection.after call
  clock := call.time.getD s.clock
  unanswered :=
    match s.connection.emitted call with
    | some _ => []
    | none => s.unanswered ++ (s.connection.accepts call).toList

/-- The runs of a connection that may hold an acknowledgement for `d`, in which
time does not go back. -/
def sys (R : Type) [Role R] [OwnOps R] (d : MaxAckDelay) : Lts.Sys (Answering R) (Call R) where
  start s := ∃ now id addr tx rx set transport owed role, OwnOps.Fresh owed role ∧ transport.maxAckDelay = d ∧
    s = ⟨.new now id addr tx rx set transport owed role, now, []⟩
  step s call s' := (∀ t, call.time = some t → s.clock ≤ t) ∧ s' = s.after call

/-- What is known of a packet not answered yet. -/
structure Waits (d : MaxAckDelay) (c : Connection R) (clock : Timestamp) (seq : Nat) (arrived : Timestamp) : Prop where
  past : arrived ≤ clock
  owed : c.acks.owed ≠ .nothing
  /-- The hold began no later. -/
  since : ∀ t, c.acks.owed = .held t → t ≤ arrived
  /-- So did the gap between packets of acknowledgements alone. -/
  alone : c.acks.aloneAfter.nanos ≤ arrived.nanos + d.get.nanos
  /-- Where a header names it, the delay runs from its arrival. -/
  measured : c.crypto.acked.newest = some seq → c.crypto.newestAckedAt = arrived

/-- What every state of a run keeps. -/
structure Kept (d : MaxAckDelay) (s : Answering R) (known : Nat → Prop) : Prop where
  intact : s.connection.channels.Intact
  delay : s.connection.acks.delay = d.get
  began : ∀ t, s.connection.acks.owed = .held t → t ≤ s.clock
  gap : s.connection.acks.aloneAfter.nanos ≤ s.clock.nanos + d.get.nanos
  /-- The numbers accepted are the replay window's. -/
  remembers : s.connection.crypto.replay.Remembers known
  newest : ∀ n, s.connection.crypto.acked.newest = some n → known n
  waits : ∀ p ∈ s.unanswered, known p.1 ∧ Waits d s.connection s.clock p.1 p.2

omit [Role R] [LawfulRole R] [OwnOps R] in
/-- Time passes, and more numbers may be remembered. -/
theorem Kept.later {d : MaxAckDelay} {s : Answering R} {known known' : Nat → Prop} (hs : Kept d s known)
    {c' : Connection R} (hintact : c'.channels.Intact) {clock' : Timestamp} (hclock : s.clock ≤ clock')
    (hacks : c'.acks = s.connection.acks) (hacked : c'.crypto.acked = s.connection.crypto.acked)
    (hnewest : c'.crypto.newestAckedAt = s.connection.crypto.newestAckedAt)
    (hremembers : c'.crypto.replay.Remembers known') (hknown : ∀ n, known n → known' n) :
    Kept d ⟨c', clock', s.unanswered⟩ known' where
  intact := hintact
  delay := by rw [hacks]; exact hs.delay
  began t ht := by
    rw [hacks] at ht
    exact Timestamp.le_trans (hs.began t ht) hclock
  gap := by
    have hgap := hs.gap
    rw [Timestamp.le_iff] at hclock
    show c'.acks.aloneAfter.nanos ≤ clock'.nanos + d.get.nanos
    rw [hacks]
    omega
  remembers := hremembers
  newest n hn := by
    rw [hacked] at hn
    exact hknown n (hs.newest n hn)
  waits p hp := by
    obtain ⟨hp, hw⟩ := hs.waits p hp
    refine ⟨hknown _ hp, Timestamp.le_trans hw.past hclock, ?_, ?_, ?_, ?_⟩
    · rw [hacks]
      exact hw.owed
    · rw [hacks]
      exact hw.since
    · rw [hacks]
      exact hw.alone
    · rw [hacked, hnewest]
      exact hw.measured

/-- The newest number after one more is it, or still the newest there was. -/
theorem newest_cases {newest : Option Nat} {seq n : Nat} (h : some (max (newest.getD seq) seq) = some n) :
    (n = seq ∧ ∀ m, newest = some m → m ≤ seq) ∨ newest = some n ∧ seq ≤ n := by
  obtain rfl := Option.some.inj h
  cases newest with
  | none => exact .inl ⟨Nat.max_self seq, fun m hm => by cases hm⟩
  | some m =>
    rw [Option.getD_some]
    rcases Nat.le_total m seq with hle | hle
    · exact .inl ⟨Nat.max_eq_right hle, fun m' hm => Option.some.inj hm ▸ hle⟩
    · rw [Nat.max_eq_left hle]
      exact .inr ⟨rfl, hle⟩

omit [Role R] [LawfulRole R] [OwnOps R] in
/-- **A packet recorded** waits from now on, and those before it as they did. -/
theorem Kept.recorded {d : MaxAckDelay} {s : Answering R} {known : Nat → Prop} (hs : Kept d s known)
    {c' : Connection R} (hintact : c'.channels.Intact) {seq : Nat} {now : Timestamp} {inOrder : Bool}
    (hclock : s.clock ≤ now) (hcheck : s.connection.crypto.replay.check seq = .ok ())
    (hsame : { s.connection with
      crypto := { s.connection.crypto with replay := s.connection.crypto.replay.insert seq }.recordEliciting seq now
      acks := s.connection.acks.record now inOrder }.SameOwed c') :
    Kept d ⟨c', now, s.unanswered ++ [(seq, now)]⟩ fun i => i = seq ∨ known i := by
  obtain ⟨hnew, hreach⟩ := (hs.remembers.check_iff seq).1 hcheck
  have hacks : c'.acks = s.connection.acks.record now inOrder := hsame.acks_eq
  have hnewest : c'.crypto.acked.newest = some (max (s.connection.crypto.acked.newest.getD seq) seq) := by
    rw [hsame.acked_eq]
    exact ReceiveWindow.insert_newest ..
  have hat : c'.crypto.newestAckedAt =
      if s.connection.crypto.acked.newest.all fun newest => newest < seq then now
      else s.connection.crypto.newestAckedAt := hsame.newest_eq
  have hgap : c'.acks.aloneAfter = s.connection.acks.aloneAfter := by
    rw [hacks]
    rfl
  have hlater := hs.gap
  rw [Timestamp.le_iff] at hclock
  refine ⟨hintact, ?_, fun t ht => ?_, ?_, ?_, fun n hn => ?_, fun p hp => ?_⟩
  · rw [hacks]
    exact hs.delay
  · rw [hacks] at ht
    rcases Acks.record_held ht with hheld | ⟨-, rfl⟩
    · exact Nat.le_trans (hs.began t hheld) hclock
    · exact Nat.le_refl _
  · show c'.acks.aloneAfter.nanos ≤ now.nanos + d.get.nanos
    rw [hgap]
    omega
  · show c'.crypto.replay.Remembers _
    rw [hsame.replay_eq]
    exact hs.remembers.insert hreach
  · have hn : c'.crypto.acked.newest = some n := hn
    rw [hnewest] at hn
    rcases newest_cases hn with ⟨heq, -⟩ | ⟨hbefore, -⟩
    · exact .inl heq
    · exact .inr (hs.newest n hbefore)
  · rcases List.mem_append.1 hp with hp | hp
    · obtain ⟨hknown, hw⟩ := hs.waits p hp
      refine ⟨.inr hknown, Nat.le_trans hw.past hclock, ?_, fun t ht => ?_, ?_, fun hnamed => ?_⟩
      · rw [hacks]
        exact Acks.record_owed _ _ _
      · rw [hacks] at ht
        rcases Acks.record_held ht with hheld | ⟨hnothing, -⟩
        · exact hw.since t hheld
        · exact absurd hnothing hw.owed
      · rw [hgap]
        exact hw.alone
      · -- the packet recorded is another one, so it is older than the one named
        rw [hnewest] at hnamed
        rcases newest_cases hnamed with ⟨heq, -⟩ | ⟨hbefore, hle⟩
        · exact absurd (heq ▸ hknown) hnew
        · rw [hat, hbefore]
          refine (if_neg ?_).trans (hw.measured hbefore)
          simp only [Option.all_some, decide_eq_true_eq]
          omega
    · obtain rfl := List.mem_singleton.1 hp
      refine ⟨.inl rfl, Nat.le_refl _, ?_, fun t ht => ?_, ?_, fun hnamed => ?_⟩
      · rw [hacks]
        exact Acks.record_owed _ _ _
      · rw [hacks] at ht
        rcases Acks.record_held ht with hheld | ⟨-, rfl⟩
        · exact Nat.le_trans (hs.began t hheld) hclock
        · exact Nat.le_refl _
      · show c'.acks.aloneAfter.nanos ≤ now.nanos + d.get.nanos
        rw [hgap]
        omega
      · rw [hnewest] at hnamed
        rw [hat]
        refine if_pos ?_
        rcases newest_cases hnamed with ⟨-, hle⟩ | ⟨hbefore, -⟩
        · cases hbefore : s.connection.crypto.acked.newest with
          | none => rfl
          | some m =>
            have hne : m ≠ seq := fun he => hnew (he ▸ hs.newest m hbefore)
            have hm := hle m hbefore
            simp only [Option.all_some, decide_eq_true_eq]
            omega
        · exact absurd (hs.newest seq hbefore) hnew

/-- A call keeps it all. -/
theorem Kept.after {d : MaxAckDelay} {s : Answering R} {known : Nat → Prop} (hs : Kept d s known) {call : Call R}
    (hforward : ∀ t, call.time = some t → s.clock ≤ t) : ∃ known', Kept d (s.after call) known' := by
  have hclock : s.clock ≤ call.time.getD s.clock := by
    cases htime : call.time with
    | none => exact Nat.le_refl _
    | some t => exact hforward t htime
  have hreceives := after_receives hs.intact call
  have hintact : (s.connection.after call).channels.Intact := (after_does s.connection call).intact hs.intact
  unfold Answering.after
  generalize s.connection.after call = c' at hreceives hintact ⊢
  cases hreceives with
  | kept hemitted haccepts hsame =>
    rw [hemitted, haccepts]
    dsimp only [Option.toList_none]
    rw [List.append_nil]
    exact ⟨known, hs.later hintact hclock hsame.acks_eq hsame.acked_eq hsame.newest_eq
      (hsame.replay_eq ▸ hs.remembers) fun _ h => h⟩
  | opened seq hemitted haccepts hcheck hsame =>
    rw [hemitted, haccepts]
    dsimp only [Option.toList_none]
    rw [List.append_nil]
    have hremembers : c'.crypto.replay.Remembers fun i => i = seq ∨ known i := by
      rw [hsame.replay_eq]
      exact hs.remembers.insert ((hs.remembers.check_iff seq).1 hcheck).2
    exact ⟨_, hs.later hintact hclock hsame.acks_eq hsame.acked_eq hsame.newest_eq hremembers fun _ h => .inr h⟩
  | recorded seq now inOrder hemitted haccepts htime hcheck hsame =>
    rw [hemitted, haccepts, htime]
    exact ⟨_, hs.recorded hintact (hforward now htime) hcheck hsame⟩
  | sent now eliciting rest htime hemitted haccepts hsame =>
    rw [hemitted, htime]
    rw [htime] at hclock
    have hacks : c'.acks = s.connection.acks.sent now eliciting := hsame.acks_eq
    refine ⟨known, hintact, ?_, fun t ht => ?_, ?_, hsame.replay_eq ▸ hs.remembers, fun n hn => ?_,
      fun p hp => (nomatch hp)⟩
    · rw [hacks]
      exact hs.delay
    · rw [hacks] at ht
      cases ht
    · -- a packet of acknowledgements alone opens the gap now
      have hgap := hs.gap
      have hclock : s.clock.nanos ≤ now.nanos := hclock
      have halone : c'.acks.aloneAfter =
          if eliciting then s.connection.acks.aloneAfter else now.saturatingAdd s.connection.acks.delay := by
        rw [hacks]
        rfl
      show c'.acks.aloneAfter.nanos ≤ now.nanos + d.get.nanos
      rw [halone]
      split
      · omega
      · rw [Timestamp.saturatingAdd_nanos, hs.delay]
        omega
    · rw [hsame.acked_eq] at hn
      exact hs.newest n hn

theorem reachable_kept {d : MaxAckDelay} {s : Answering R} (h : Lts.Reachable (sys R d) s) : ∃ known, Kept d s known := by
  refine Lts.Reach.invariant (P := fun s => ∃ known, Kept d s known) ?_ ?_ h
  · rintro _ ⟨now, id, addr, tx, rx, set, transport, owed, role, -, rfl, rfl⟩
    exact ⟨fun _ => False, Channels.new_intact set, rfl, fun t ht => (nomatch ht), Nat.zero_le _,
      ⟨fun _ _ h => h, fun _ h => (nomatch h)⟩, fun n hn => (nomatch hn), fun p hp => (nomatch hp)⟩
  · rintro s call _ - ⟨known, hs⟩ - ⟨hforward, rfl⟩
    exact hs.after hforward

omit [Role R] [LawfulRole R] [OwnOps R] in
/-- The deadline of a packet that waits. -/
theorem Waits.deadline {d : MaxAckDelay} {c : Connection R} {clock arrived : Timestamp} {seq : Nat}
    (h : Waits d c clock seq arrived) (hdelay : c.acks.delay = d.get) :
    ∃ deadline, c.acks.deadline = some deadline ∧ deadline.nanos ≤ arrived.nanos + d.get.nanos := by
  have halone := h.alone
  unfold Acks.deadline
  cases howed : c.acks.owed with
  | nothing => exact absurd howed h.owed
  | atOnce =>
    refine ⟨_, rfl, ?_⟩
    rw [Timestamp.max_nanos, Timestamp.zero_nanos]
    omega
  | held t =>
    have hsince := h.since t howed
    rw [Timestamp.le_iff] at hsince
    refine ⟨_, rfl, ?_⟩
    rw [Timestamp.max_nanos, Timestamp.saturatingAdd_nanos, hdelay]
    omega

/-- **Acknowledgements are timely and measurable.** In every run whose times do
not go back, a packet accepted at `p.2` that nothing was sent after has a
deadline within the delay of its arrival. The first packet sent after it, if
that is within the delay and names it as newest, reports how long it was held to
within a unit, and never more. Later packets name it only if this one does. -/
theorem acknowledged_in_time {d : MaxAckDelay} {s : Answering R} (h : Lts.Reachable (sys R d) s) {p : Nat × Timestamp}
    (hp : p ∈ s.unanswered) :
    ∃ deadline, s.connection.acks.deadline = some deadline ∧ deadline.nanos ≤ p.2.nanos + d.get.nanos ∧
      ∀ (now : Timestamp) (out : Packet) (datagram : List UInt8), s.clock ≤ now →
        now.nanos ≤ p.2.nanos + d.get.nanos → (s.connection.pollTransmit now out).2 = some datagram →
        s.connection.crypto.acked.newest = some p.1 →
        ∃ header len reported, Header.decode datagram = .ok (header, len) ∧
          header.ack = some (Sequence.toWire p.1) ∧ header.ackDelay.toNat < 255 ∧
          Ack.decodeAckDelay header.ackDelay = some reported ∧ reported.nanos ≤ now.nanos - p.2.nanos ∧
          now.nanos - p.2.nanos < reported.nanos + ackDelayUnit.nanos := by
  obtain ⟨known, hs⟩ := reachable_kept h
  obtain ⟨-, hw⟩ := hs.waits p hp
  obtain ⟨deadline, hdeadline, hle⟩ := hw.deadline hs.delay
  refine ⟨deadline, hdeadline, hle, fun now out datagram _ hby hpoll hnamed => ?_⟩
  have hemitted : s.connection.emitted (.pollTransmit now out) = some datagram := hpoll
  cases after_receives hs.intact (.pollTransmit now out) with
  | kept hnone => exact absurd (hemitted.symm.trans hnone) (by simp)
  | opened _ hnone => exact absurd (hemitted.symm.trans hnone) (by simp)
  | recorded _ _ _ hnone => exact absurd (hemitted.symm.trans hnone) (by simp)
  | sent now' eliciting rest htime hsent =>
    cases htime
    obtain rfl := Option.some.inj (hemitted.symm.trans hsent)
    have hheader : s.connection.buildHeader now = ⟨.payload, s.connection.id,
        Sequence.toWire s.connection.crypto.nextSequence, some (Sequence.toWire p.1),
        Ack.encodeAckDelay (now.since p.2), s.connection.crypto.acked.ackBits⟩ := by
      rw [buildHeader, PacketCrypto.ackState, hnamed, Option.map_some, hw.measured hnamed]
    have hheld : (now.since p.2).nanos ≤ ackDelayUnit.nanos * 254 := by
      have hmax := d.le
      rw [Timestamp.since_nanos]
      omega
    obtain ⟨hbelow, reported, hdecode, hover, hunder⟩ := Ack.decode_encodeAckDelay hheld
    refine ⟨_, _, reported, Header.decode_bytes (buildHeader_spec s.connection now).1 rest, ?_⟩
    rw [hheader]
    exact ⟨rfl, hbelow, hdecode, hover, hunder⟩

/-- A client that has just heard it was accepted. -/
def heard : Answering Client :=
  let server : Connection Server :=
    .accept .zero 0 0 ⟨List.replicate nonceLen 0, TicketId.length_zeros⟩ (.v4 0 0) .clear .clear
      orderedOnly .default
  let client : Answering Client :=
    ⟨.connect .zero 0 (.v4 0 0) .clear .clear orderedOnly .default, .zero, []⟩
  client.after (.handleDatagram .zero (.v4 0 0) ((server.pollTransmit .zero blank).2.getD []))

/-- The longest it may hold its answer. -/
def longest : Timestamp := Timestamp.zero.saturatingAdd TransportConfig.default.maxAckDelay.get

/-- It answers at its deadline, and says how long that was. -/
theorem acknowledged_in_time_accepted : heard.connection.acks.deadline = some longest ∧
    ∃ datagram header len reported, (heard.connection.pollTransmit longest blank).2 = some datagram ∧
      Header.decode datagram = .ok (header, len) ∧ Ack.decodeAckDelay header.ackDelay = some reported ∧
      reported.nanos ≤ longest.nanos ∧ longest.nanos < reported.nanos + ackDelayUnit.nanos := by
  have hreach : Lts.Reachable (sys Client TransportConfig.default.maxAckDelay) heard :=
    .step (.start ⟨_, _, _, _, _, _, _, _, _, ⟨rfl, rfl⟩, rfl, rfl⟩) trivial ⟨by rintro _ ⟨⟩; exact Nat.le_refl _, rfl⟩
  have hwaits : (1, Timestamp.zero) ∈ heard.unanswered := by decide +kernel
  have hnamed : heard.connection.crypto.acked.newest = some 1 := by decide +kernel
  have hlongest : heard.connection.acks.deadline = some longest := by decide +kernel
  obtain ⟨deadline, hdeadline, -, hreports⟩ := acknowledged_in_time hreach hwaits
  obtain rfl := Option.some.inj (hdeadline.symm.trans hlongest)
  obtain ⟨datagram, hpoll⟩ := Option.isSome_iff_exists.1
    (show (heard.connection.pollTransmit longest blank).2.isSome = true by decide +kernel)
  obtain ⟨header, len, reported, hheader, -, -, hdecode, hover, hunder⟩ :=
    hreports longest blank datagram (by decide +kernel) (by decide +kernel) hpoll hnamed
  exact ⟨hlongest, datagram, header, len, reported, hpoll, hheader, hdecode, hover, hunder⟩

end Answering
end HexNet
