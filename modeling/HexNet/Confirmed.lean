/-
What a side stops keeping, the other has read.

A header's acknowledgement says what its writer had read when it was sealed
(`Parcel.Answers`), and what was read stays read; so however late it comes it
is true, as long as its sixteen bits still name the packet they meant. The
ledger takes a record out for a packet acknowledged, and a record names the
reliable messages of its packet. Nothing else takes a reliable message out of
the queue: not a loss, not a probe, not a packet displaced from the ring.
-/
import HexNet.Conveyance
import HexNet.Losses

namespace HexNet

open Ack (Delivery Notice Outgoing Resolved Tracks history)
open Connection (OwnOps LawfulRole Marked Call)

/-! ## The ledger's notices -/

namespace Ack

variable {P : Type} {N : Nat} [NeZero N]

/-- A record handed back as acknowledged is the one its packet was sent with. -/
theorem Tracks.acked_mem {sent : SequenceBuffer (Sent P) N} {largestSent : Option Nat} {n : Nat}
    {sends : List (Nat × P)} {ns : List (Notice P)} (t : Tracks sent largestSent n sends ns) {notice : Notice P}
    (hn : notice ∈ ns) {r : P} (hwhat : notice.what = .acked r) : (notice.sequence, r) ∈ sends := by
  have hmem := mem_history hn
  rw [hwhat] at hmem
  by_cases hq : notice.sequence ∈ sends.map Prod.fst
  · obtain ⟨⟨q, r'⟩, hsend, rfl⟩ := List.mem_map.1 hq
    rcases t.story hsend with hnil | hstory | hstory | hstory
    · rw [hnil] at hmem
      cases hmem
    · rw [hstory, List.mem_singleton] at hmem
      cases hmem
      exact hsend
    · rw [hstory, List.mem_singleton] at hmem
      cases hmem
    · rw [hstory] at hmem
      simp at hmem
  · rw [t.quiet _ hq] at hmem
    cases hmem

namespace Delivery

/-- A notice that hands no record back as acknowledged. -/
def NoAck (n : Notice P) : Prop := ∀ r, n.what ≠ .acked r

theorem resolve_notices (d : Delivery P N) (seq : Nat) : ∀ n ∈ (d.resolve seq).2.1, n.sequence = seq := by
  unfold resolve
  split
  · simp
  · dsimp only
    split <;> simp

theorem resolveBits_notices (ack : Nat) (bits : BitVec 32) (k offset : Nat) (d : Delivery P N) :
    ∀ n ∈ (resolveBits ack bits k offset d).2.1,
      ∃ i < offset + k, bits.getLsbD i = true ∧ Sequence.checkedSub ack (i + 1) = some n.sequence := by
  induction k generalizing offset d with
  | zero => simp [resolveBits]
  | succ k ih =>
    have hrest : ∀ (d : Delivery P N), ∀ n ∈ (resolveBits ack bits k (offset + 1) d).2.1,
        ∃ i < offset + (k + 1), bits.getLsbD i = true ∧ Sequence.checkedSub ack (i + 1) = some n.sequence := by
      intro d n hn
      obtain ⟨i, hi, hbit, hseq⟩ := ih (offset + 1) d n hn
      exact ⟨i, by omega, hbit, hseq⟩
    rw [resolveBits]
    split
    · exact hrest d
    next seq hseq =>
      intro n hn
      rcases List.mem_append.1 hn with hn | hn
      · obtain rfl := resolve_notices d seq n hn
        split at hseq
        next hbit => exact ⟨offset, by omega, hbit, hseq⟩
        · cases hseq
      · exact hrest _ n hn

theorem scanLost_noAck (now : Timestamp) (delay : Span) (threshold : Option Nat) (k seq : Nat) (d : Delivery P N) :
    ∀ n ∈ (scanLost now delay threshold k seq d).2, NoAck n := by
  induction k generalizing seq d with
  | zero => simp [scanLost]
  | succ k ih =>
    rw [scanLost]
    split
    · dsimp only
      split
      · intro n hn
        rcases List.mem_cons.1 hn with rfl | hn
        · exact fun r hr => by cases hr
        · exact ih _ _ n hn
      · simp
    · exact ih _ _

theorem detectLost_noAck (d : Delivery P N) (now : Timestamp) : ∀ n ∈ (d.detectLost now).2, NoAck n := by
  unfold detectLost
  split
  · simp
  · exact fun n hn => scanLost_noAck now _ _ _ _ d n hn

/-- Only what it names is acknowledged. -/
theorem onAck_names (d : Delivery P N) (now : Timestamp) (ack : Nat) (ackDelay : Option Span) (bits : BitVec 32) :
    ∀ n ∈ (d.onAck now ack ackDelay bits).2, ∀ r, n.what = .acked r → Names ack bits n.sequence := by
  intro n hn r hwhat
  simp only [onAck, List.mem_append] at hn
  rcases hn with (hn | hn) | hn
  · exact .inl (resolve_notices d ack n hn)
  · obtain ⟨i, hi, hbit, hseq⟩ := resolveBits_notices ack bits 32 0 _ n hn
    exact .inr ⟨i, by omega, hbit, hseq⟩
  · exact absurd hwhat (detectLost_noAck _ now n hn r)

theorem onTimeout_noAck (d : Delivery P N) (now : Timestamp) : ∀ n ∈ (d.onTimeout now).2.1, NoAck n := by
  rw [onTimeout_notices]
  exact detectLost_noAck d now

theorem onSent_below {d : Delivery P N} {next : Nat} (h : ∀ l, d.largestSent = some l → l < next) (now : Timestamp)
    (outgoing : Outgoing P) : ∀ l, (d.onSent now next outgoing).1.largestSent = some l → l < next + 1 := by
  intro l hl
  rw [onSent_largestSent] at hl
  have hl := Option.some.inj hl
  cases hold : d.largestSent with
  | none =>
    rw [hold, Option.elim_none] at hl
    omega
  | some l₀ =>
    have := h l₀ hold
    rw [hold, Option.elim_some] at hl
    omega

theorem onSent_noAck (d : Delivery P N) (now : Timestamp) (q : Nat) (outgoing : Outgoing P) :
    ∀ n ∈ (d.onSent now q outgoing).2, NoAck n := by
  unfold onSent
  cases outgoing with
  | ackOnly => simp
  | eliciting record =>
    dsimp only
    split
    · intro n hn
      rw [List.mem_singleton.1 hn]
      exact fun r hr => by cases hr
    · simp

end Delivery

end Ack

/-! ## What leaves the queue -/

namespace Channels

/-- A message of that key waits in the queue. -/
def Queues (c : Channels) (key : MessageKey) : Prop := ∃ m ∈ c.pending.items, m.key = key

theorem Queues.of_queue {c c' : Channels} {key : MessageKey} (h : c.Queues key)
    (hqueue : queue c'.pending.items = queue c.pending.items) : c'.Queues key := by
  obtain ⟨m, hm, hkey⟩ := h
  have hmem : (m.key, m.bytes) ∈ queue c'.pending.items := by
    rw [hqueue]
    exact mem_queue.2 ⟨m, hm, rfl, rfl⟩
  obtain ⟨m', hm', hsame, -⟩ := mem_queue.1 hmem
  exact ⟨m', hm', hsame.trans hkey⟩

theorem Queues.releasePending {c : Channels} {key key' : MessageKey} (h : c.Queues key) (hne : key ≠ key') :
    (c.releasePending key').Queues key := by
  obtain ⟨m, hm, hkey⟩ := h
  rcases releasePending_cases c key' with ⟨heq, -⟩ | ⟨before, x, after, hitems, hxkey, hitems', -⟩
  · rw [heq]
    exact ⟨m, hm, hkey⟩
  · refine ⟨m, ?_, hkey⟩
    rw [hitems] at hm
    rw [hitems']
    rcases List.mem_append.1 hm with hm | hm
    · exact List.mem_append_left _ hm
    · rcases List.mem_cons.1 hm with rfl | hm
      · exact absurd (hkey.symm.trans hxkey) hne
      · exact List.mem_append_right _ hm

/-- An acknowledged record takes out no message it does not name. -/
theorem Queues.onAcked {c : Channels} {key : MessageKey} (h : c.Queues key) {record : PacketRecord}
    (hne : key ∉ record.items) : (c.onAcked record).Queues key := by
  suffices hgo : ∀ (keys : List MessageKey) (c : Channels), c.Queues key → key ∉ keys →
      (keys.foldl Channels.releasePending c).Queues key from hgo record.items c h hne
  intro keys
  induction keys with
  | nil => exact fun c hc _ => hc
  | cons k keys ih =>
    intro c hc hmem
    rw [List.mem_cons, not_or] at hmem
    exact ih _ (hc.releasePending hmem.1) hmem.2

theorem Queues.onLost {c : Channels} {key : MessageKey} (h : c.Queues key) (record : PacketRecord) :
    (c.onLost record).Queues key := by
  suffices hgo : ∀ (keys : List MessageKey) (c : Channels), c.Queues key →
      (keys.foldl Channels.markLost c).Queues key from hgo record.items c h
  intro keys
  induction keys with
  | nil => exact fun c hc => hc
  | cons k keys ih => exact fun c hc => ih _ (hc.of_queue (markLost_queue c k))

/-- A sent packet takes out none but its unreliable messages. -/
theorem Queues.onPacketSent {c : Channels} {key : MessageKey} (h : c.Queues key) {staged : PacketMessages}
    (hne : ∀ x ∈ staged.items, x.reliable = false → x.key ≠ key) : (c.onPacketSent staged).1.Queues key := by
  suffices hgo : ∀ (l : List Written) (s : Channels × PacketRecord), s.1.Queues key →
      (∀ x ∈ l, x.reliable = false → x.key ≠ key) → (l.foldl commitOne s).1.Queues key from
    hgo staged.items (c, .empty) h hne
  intro l
  induction l with
  | nil => exact fun s hs _ => hs
  | cons x l ih =>
    intro s hs hl
    refine ih _ ?_ fun y hy => hl y (by simp [hy])
    unfold commitOne
    split
    · exact hs
    next hrel => exact hs.releasePending (hl x (by simp) (by simpa using hrel)).symm

end Channels

namespace Connection

variable {R : Type}

/-- What the ledger reports takes a message out of the queue only where a
record that names it was acknowledged. -/
theorem ledger_queues {c : Connection R} {key : MessageKey} (h : c.channels.Queues key)
    (r : Delivery PacketRecord ledgerSlots × List (Notice PacketRecord)) :
    (c.ledger r).channels.Queues key ∨ ∃ n ∈ r.2, ∃ record, n.what = .acked record ∧ key ∈ record.items := by
  suffices hgo : ∀ (ns : List (Notice PacketRecord)) (s : Channels × Budget), s.1.Queues key →
      (ns.foldl (fun s notice => applyResolution s notice.what) s).1.Queues key ∨
        ∃ n ∈ ns, ∃ record, n.what = .acked record ∧ key ∈ record.items from hgo r.2 (c.channels, c.budget) h
  intro ns
  induction ns with
  | nil => exact fun s hs => .inl hs
  | cons n ns ih =>
    intro s hs
    have hrest : ∀ s' : Channels × Budget, s'.1.Queues key →
        (ns.foldl (fun s notice => applyResolution s notice.what) s').1.Queues key ∨
          ∃ n' ∈ n :: ns, ∃ record, n'.what = .acked record ∧ key ∈ record.items := fun s' hs' => by
      refine (ih s' hs').imp (fun hq => hq) ?_
      rintro ⟨n', hn', hrecord⟩
      exact ⟨n', by simp [hn'], hrecord⟩
    rw [List.foldl_cons]
    cases hwhat : n.what with
    | acked record =>
      by_cases hkey : key ∈ record.items
      · exact .inr ⟨n, by simp, record, hwhat, hkey⟩
      · exact hrest _ (hs.onAcked hkey)
    | lost record => exact hrest _ (hs.onLost record)
    | spurious => exact hrest _ hs

/-- The same where nothing was acknowledged. -/
theorem ledger_queues_noAck {c : Connection R} {key : MessageKey} (h : c.channels.Queues key)
    {r : Delivery PacketRecord ledgerSlots × List (Notice PacketRecord)} (hr : ∀ n ∈ r.2, Delivery.NoAck n) :
    (c.ledger r).channels.Queues key := by
  rcases ledger_queues h r with hq | ⟨n, hn, record, hwhat, -⟩
  · exact hq
  · exact absurd hwhat (hr n hn record)

theorem transmitted_queues {c : Connection R} {key : MessageKey} {staged : PacketMessages}
    (h : (c.channels.onPacketSent staged).1.Queues key) (now : Timestamp) (crypto : PacketCrypto) (len : Nat)
    (eliciting : Bool) : (c.transmitted now crypto staged len eliciting).channels.Queues key := by
  have hledger : ({ c with crypto, channels := (c.channels.onPacketSent staged).1 }.ledger
      (c.delivery.onSent now c.crypto.nextSequence
        (if eliciting then .eliciting (c.channels.onPacketSent staged).2 else .ackOnly))).channels.Queues key :=
    ledger_queues_noAck h fun n hn => Delivery.onSent_noAck _ _ _ _ n hn
  rw [transmitted, (noticeSent_same _).1]
  exact hledger

/-- Neither does a poll. -/
theorem pollTransmit_queues {c : Connection R} (hintact : c.channels.Intact) {key : MessageKey} {kind : ChannelKind}
    (h : c.channels.Queues key) (hkind : c.channels.set.kind key.channel = some kind) (hrel : kind.isReliable = true)
    (now : Timestamp) (out : Packet) : (c.pollTransmit now out).1.channels.Queues key := by
  have hfilled : ∀ {len filled staged new w}, ((c.assessed now).prepared now).Filled len filled staged new w →
      filled.Queues key ∧ ∀ x ∈ staged.items, x.reliable = false → x.key ≠ key := by
    intro len filled staged new w hf
    refine ⟨h.of_queue (hf.carrying.queue_eq.trans (requeued_queue (c.assessed now))), fun x hx hunrel hkey => ?_⟩
    have hstaged : staged.items = new.map Prod.fst := by simpa using hf.carrying.staged_eq
    rw [hstaged] at hx
    obtain ⟨e, he, rfl⟩ := List.mem_map.1 hx
    obtain ⟨-, kind', hkind', hrel'⟩ := hf.carrying.queued e he
    have hset : ((c.assessed now).prepared now).channels.set = c.channels.set :=
      (requeued_settles (c.assessed now)).set_eq
    rw [hset, show e.1.channel = key.channel from congrArg MessageKey.channel hkey, hkind] at hkind'
    obtain rfl := Option.some.inj hkind'
    rw [hunrel, hrel] at hrel'
    cases hrel'
  rcases pollTransmit_cases hintact now out with ⟨-, heq⟩ | ⟨-, hbuilds⟩
  · rw [heq]
    exact h
  · generalize c.pollTransmit now out = r at hbuilds
    cases hbuilds with
    | aborted hf => exact (hfilled hf).1
    | built hf =>
      obtain ⟨hqueues, hstaged⟩ := hfilled hf
      exact transmitted_queues (hqueues.onPacketSent hstaged) ..

/-! ## What a call does to the queue and the ledger -/

section

variable [Role R] [LawfulRole R] [OwnOps R]

/-- An opened packet's acknowledgement is applied to the ledger, and nothing
else of it reaches the sending side. -/
theorem after_acked {c : Connection R} {call : Call R} {crypto : PacketCrypto} {opened : Decrypted}
    (hopen : c.opens call = some (crypto, opened)) :
    (opened.header.ack.bind c.crypto.resolveAck = none ∧ c.Passive (c.after call)) ∨
      ∃ now ack, opened.header.ack.bind c.crypto.resolveAck = some ack ∧
        (c.ledger (c.delivery.onAck now ack (Ack.decodeAckDelay opened.header.ackDelay)
          opened.header.ackBits)).Passive (c.after call) := by
  obtain ⟨now, sender, datagram, rfl, hdec, hcall⟩ := opens_some hopen
  obtain ⟨hseq, htx⟩ := PacketCrypto.decrypt_tx hdec
  have hresolve : crypto.resolveAck = c.crypto.resolveAck := by
    funext wire
    simp only [PacketCrypto.resolveAck, hseq]
  have hopened := handleOpened_passive { c with crypto, lastReceived := now } now sender opened
  unfold handleAck at hopened
  dsimp only at hopened
  rw [hresolve] at hopened
  rw [after, hcall]
  cases hack : opened.header.ack.bind c.crypto.resolveAck with
  | none =>
    simp only [hack] at hopened
    have hbegun : c.Passive { c with crypto, lastReceived := now } := ⟨rfl, hseq, htx, rfl, rfl, rfl⟩
    exact .inl ⟨rfl, hbegun.trans hopened⟩
  | some ack =>
    simp only [hack] at hopened
    have hbegun : (c.ledger (c.delivery.onAck now ack (Ack.decodeAckDelay opened.header.ackDelay)
        opened.header.ackBits)).Passive ({ c with crypto, lastReceived := now }.ledger
          (c.delivery.onAck now ack (Ack.decodeAckDelay opened.header.ackDelay) opened.header.ackBits)) :=
      ⟨rfl, hseq, htx, rfl, rfl, rfl⟩
    exact .inr ⟨now, ack, rfl, hbegun.trans hopened⟩

omit [LawfulRole R] in
/-- What is accepted was opened. -/
theorem accepts_opens {c : Connection R} {call : Call R} {seq : Nat} {now : Timestamp}
    (h : c.accepts call = some (seq, now)) : ∃ crypto opened, c.opens call = some (crypto, opened) ∧
      opened.sequence = seq := by
  cases call with
  | handleDatagram now' sender datagram =>
    rw [accepts] at h
    split at h
    · cases h
    next hlive =>
      split at h
      · cases h
      next crypto opened hdec =>
        split at h
        · cases h
          refine ⟨crypto, opened, ?_, rfl⟩
          rw [opens, if_neg hlive, hdec]
          rfl
        · cases h
        · cases h
  | _ => cases h

end

end Connection

namespace Connection

variable {R : Type} {c : Connection R} {now : Timestamp} {out : Packet}

/-- A poll that seals nothing leaves the ledger and the keys. -/
theorem pollTransmit_none (h : c.channels.Intact) (hpoll : (c.pollTransmit now out).2 = none) :
    (c.pollTransmit now out).1.delivery = c.delivery ∧ (c.pollTransmit now out).1.crypto = c.crypto := by
  rcases pollTransmit_cases h now out with ⟨-, heq⟩ | ⟨-, hbuilds⟩
  · rw [heq]
    exact ⟨rfl, rfl⟩
  · generalize c.pollTransmit now out = r at hbuilds hpoll
    cases hbuilds with
    | aborted => exact ⟨rfl, rfl⟩
    | built => cases hpoll

/-- The ledger's record of a packet names messages it carries. -/
theorem outgoing_carried {record : PacketRecord} (h : c.outgoing now out = .eliciting record) :
    ∀ key ∈ record.items, ∃ m ∈ c.carried now out, m.key = key := by
  unfold outgoing at h
  dsimp only at h
  split at h
  · cases h
    intro key hkey
    rw [(Channels.onPacketSent_spec _ _).2] at hkey
    obtain ⟨x, hx, hsame⟩ := List.mem_map.1 hkey
    exact ⟨_, List.mem_map_of_mem (List.mem_filter.1 hx).1, hsame⟩
  · cases h

end Connection

/-! ## What a header says -/

theorem ReceiveWindow.Remembers.names {w : ReceiveWindow} {S : Nat → Prop} (h : w.Remembers S) {newest : Nat}
    (hnewest : w.newest = some newest) {q : Nat} (hq : Delivery.Names newest w.ackBits q) : S q := by
  have htracks := h.tracks newest hnewest
  rcases hq with rfl | ⟨i, hi, hbit, hsub⟩
  · exact htracks.newest_mem
  · have hsum : q + (i + 1) = newest := by
      unfold Sequence.checkedSub Sequence.ofCounter at hsub
      split at hsub
      · cases hsub
      · cases hsub
        omega
    refine (htracks.bit q (i + 1) hsum (by omega)).1 ?_
    simpa [ackBits, hi, Nat.add_comm] using hbit

/-- A packet is one the side `R` can read, whose header acknowledges only
numbers of `read`. -/
def Parcel.Answers (R : Type) [Role R] [FrameReader R] (p : Parcel) (cipher : Cipher) (set : ChannelSet)
    (read : List Nat) : Prop :=
  ∃ header fs ms, p.Written R cipher set header fs ms ∧ header.ack = p.acks.map Sequence.toWire ∧
    ∀ newest ∈ p.acks, ∀ q, Delivery.Names newest header.ackBits q → q ∈ read

theorem Parcel.Answers.mono {R : Type} [Role R] [FrameReader R] {p : Parcel} {cipher : Cipher} {set : ChannelSet}
    {read read' : List Nat} (h : p.Answers R cipher set read) (hsub : ∀ q ∈ read, q ∈ read') :
    p.Answers R cipher set read' := by
  obtain ⟨header, fs, ms, hwritten, hack, hnames⟩ := h
  exact ⟨header, fs, ms, hwritten, hack, fun newest hn q hq => hsub q (hnames newest hn q hq)⟩

theorem Connection.buildHeader_acks {R : Type} (c : Connection R) (now : Timestamp) :
    (c.buildHeader now).ack = c.crypto.acked.newest.map Sequence.toWire ∧
      ∀ newest ∈ c.crypto.acked.newest, (c.buildHeader now).ackBits = c.crypto.acked.ackBits := by
  unfold buildHeader PacketCrypto.ackState
  cases hnewest : c.crypto.acked.newest with
  | none => exact ⟨rfl, fun _ hn => by cases hn⟩
  | some newest => exact ⟨rfl, fun _ _ => rfl⟩

/-! ## The guard -/

namespace Party

variable {R : Type} [OwnOps R]

/-- A packet of `sealed` that arrives acknowledges a packet within 32767 of the
newest this side has sent. -/
def Current (p : Party R) (sealed : List Parcel) : Call R → Prop
  | .handleDatagram _ _ datagram =>
    ∀ q ∈ sealed, q.datagram = datagram → ∀ newest ∈ q.acks, p.conn.crypto.nextSequence ≤ newest + 32768
  | _ => True

instance (p : Party R) (sealed : List Parcel) : DecidablePred (p.Current sealed)
  | .handleDatagram _ _ datagram => inferInstanceAs (Decidable
      (∀ q ∈ sealed, q.datagram = datagram → ∀ newest ∈ q.acks, p.conn.crypto.nextSequence ≤ newest + 32768))
  | .send .. | .pollTransmit .. | .handleTimeout _ | .close _ | .pollEvent | .own _ => inferInstanceAs (Decidable True)

end Party

namespace Duplex

variable {R R' : Type} [Role R] [LawfulRole R] [OwnOps R] [FrameReader R] [Role R'] [LawfulRole R'] [OwnOps R']
  [FrameReader R']

/-- What opens is genuine, no ids wrap, and acknowledgements can be told from
their sixteen bits. -/
def Answered (s : Duplex R R') (op : DuplexOp R R') : Prop :=
  s.Genuine op ∧
    match op with
    | .left call => s.left.NoWrap call ∧ s.left.Current s.right.sealed call
    | .right call => s.right.NoWrap call ∧ s.right.Current s.left.sealed call

instance (s : Duplex R R') : DecidablePred s.Answered
  | .left call => inferInstanceAs (Decidable
      (s.Genuine (.left call) ∧ s.left.NoWrap call ∧ s.left.Current s.right.sealed call))
  | .right call => inferInstanceAs (Decidable
      (s.Genuine (.right call) ∧ s.right.NoWrap call ∧ s.right.Current s.left.sealed call))

omit [Role R] [LawfulRole R] [FrameReader R] [Role R'] [LawfulRole R'] [FrameReader R'] in
theorem answered_swap (s : Duplex R R') (op : DuplexOp R R') (h : s.Answered op) : s.swap.Answered (swapOp op) := by
  cases op <;> exact h

/-! ## What the right has read, and says it has -/

/-- The window of packets worth acknowledging answers for those read, and every
packet sealed acknowledged some of them. -/
structure Answering (s : Duplex R R') (set : ChannelSet) : Prop where
  window : s.right.conn.crypto.acked.Remembers (· ∈ s.right.read)
  opened : ∀ q ∈ s.right.read, q ∈ s.right.opened
  answers : ∀ p ∈ s.right.sealed, p.Answers R s.right.conn.crypto.tx set s.right.read

variable {up down : Aead} {set : ChannelSet} {s s' : Duplex R R'}

omit [LawfulRole R] [FrameReader R'] in
/-- A call of the right's records what it read. -/
theorem Answering.window_after (h : s.Answering set) (hjoined : s.Joined up set) (call : Call R') :
    (s.right.conn.after call).crypto.acked.Remembers (· ∈ (s.right.after call).read) := by
  have hreceives := Connection.after_receives (Connection.reach_intact hjoined.receiver) call
  have hread : (s.right.after call).read = s.right.read ++ ((s.right.conn.accepts call).map Prod.fst).toList := rfl
  rw [hread]
  generalize s.right.conn.after call = c' at hreceives
  cases hreceives with
  | kept _ haccepts hsame =>
    rw [haccepts, hsame.acked_eq]
    simpa using h.window
  | opened seq _ haccepts _ hsame =>
    rw [haccepts, hsame.acked_eq]
    simpa using h.window
  | sent now eliciting rest _ _ haccepts hsame =>
    rw [haccepts, hsame.acked_eq]
    simpa using h.window
  | recorded seq now inOrder _ haccepts _ hcheck hsame =>
    -- what the replay window lets in is within this window too, which is no newer
    have hreach : s.right.conn.crypto.acked.newest.getD 0 < seq + 64 := by
      have hreplay := ((hjoined.numbered.remembers.check_iff seq).1 hcheck).2
      cases hnewest : s.right.conn.crypto.acked.newest with
      | none => simp
      | some newest =>
        have hmem := h.opened newest ((h.window.tracks newest hnewest).newest_mem)
        have hremembers : s.right.conn.crypto.replay.Remembers (· ∈ s.right.opened) := hjoined.numbered.remembers
        have hreplay : s.right.conn.crypto.replay.newest.getD 0 < seq + 64 := hreplay
        cases hnew : s.right.conn.crypto.replay.newest with
        | none => exact absurd hmem (hremembers.fresh hnew newest)
        | some top =>
          have hle := (hremembers.tracks top hnew).le newest hmem
          rw [hnew, Option.getD_some] at hreplay
          rw [Option.getD_some]
          omega
    rw [haccepts, hsame.acked_eq]
    simpa [PacketCrypto.recordEliciting, or_comm] using h.window.insert hreach

omit [LawfulRole R] [FrameReader R'] in
theorem Answering.right [Peer R' R] (h : s.Answering set) (hjoined : s.Joined up set) (call : Call R') :
    ({ s with right := s.right.after call } : Duplex R R').Answering set := by
  have hintact := Connection.reach_intact hjoined.receiver
  have htx : (s.right.after call).conn.crypto.tx = s.right.conn.crypto.tx :=
    (Connection.after_numbered hintact call).1
  have hmore : ∀ q ∈ s.right.read, q ∈ (s.right.after call).read := fun q hq => List.mem_append_left _ hq
  refine ⟨h.window_after hjoined call, fun q hq => ?_, fun p hp => ?_⟩
  · rcases List.mem_append.1 hq with hq | hq
    · exact List.mem_append_left _ (h.opened q hq)
    · obtain ⟨⟨seq, now⟩, haccepts, rfl⟩ := Option.map_eq_some_iff.1 (Option.mem_toList.1 hq)
      obtain ⟨crypto, opened, hopen, rfl⟩ := Connection.accepts_opens haccepts
      refine List.mem_append_right _ ?_
      rw [hopen]
      simp
  · dsimp only at hp ⊢
    rw [htx]
    rcases List.mem_append.1 hp with hp | hp
    · exact (h.answers p hp).mono hmore
    · obtain ⟨datagram, hemitted, rfl⟩ := Option.map_eq_some_iff.1 (Option.mem_toList.1 hp)
      obtain ⟨now, out, ms, -, hwritten, -⟩ := Connection.emitted_written R hjoined.receiver hemitted
        (s.right.conn.carries call) s.right.conn.crypto.acked.newest
      rw [hjoined.receiverSet] at hwritten
      obtain ⟨hack, hbits⟩ := s.right.conn.buildHeader_acks now
      refine ⟨_, _, ms, hwritten, hack, fun newest hnewest q hq => hmore q ?_⟩
      rw [hbits newest hnewest] at hq
      exact h.window.names hnewest hq

/-! ## What the left keeps -/

/-- Every reliable message waits in the queue still, or was in a packet the
right has read; and the ledger's records are of packets sealed. -/
structure Confirmed (s : Duplex R R') (set : ChannelSet) : Prop where
  tracked : ∃ sends ns, s.left.conn.delivery.Tracking sends ns ∧ ∀ q record, (q, record) ∈ sends →
    ∃ p ∈ s.left.sealed, p.number = q ∧ ∀ k ∈ record.items, ∃ m ∈ p.messages, m.key = k
  below : ∀ l, s.left.conn.delivery.largestSent = some l → l < s.left.conn.crypto.nextSequence
  kept : ∀ m ∈ s.left.sent, ∀ kind, set.kind m.channel = some kind → kind.isReliable = true →
    s.left.conn.channels.Queues m.key ∨ ∃ p ∈ s.left.sealed, p.number ∈ s.right.read ∧ m ∈ p.messages

omit [LawfulRole R] [OwnOps R] [Role R] [FrameReader R] [LawfulRole R'] [Role R'] [FrameReader R'] in
theorem Confirmed.right [Role R'] (h : s.Confirmed set) (call : Call R') :
    ({ s with right := s.right.after call } : Duplex R R').Confirmed set := by
  refine ⟨h.tracked, h.below, fun m hm kind hkind hrel => ?_⟩
  refine (h.kept m hm kind hkind hrel).imp (fun hq => hq) ?_
  rintro ⟨p, hp, hread, hmem⟩
  exact ⟨p, hp, List.mem_append_left _ hread, hmem⟩

omit [Role R] [LawfulRole R] [OwnOps R] [FrameReader R] [LawfulRole R'] [OwnOps R'] in
/-- What the ledger reports keeps the account, where every packet it takes for
acknowledged was read. -/
theorem Confirmed.ledger (h : s.Confirmed set) (hdispatched : s.Dispatched set) {left : Party R}
    {r : Delivery PacketRecord ledgerSlots × List (Notice PacketRecord)}
    (ht : ∀ sends ns, s.left.conn.delivery.Tracking sends ns → r.1.Tracking sends (ns ++ r.2))
    (hlargest : r.1.largestSent = s.left.conn.delivery.largestSent)
    (hread : ∀ n ∈ r.2, ∀ record, n.what = .acked record → n.sequence ∈ s.right.read)
    (hp : (s.left.conn.ledger r).Passive left.conn) (hsealed : left.sealed = s.left.sealed)
    (hsent : left.sent = s.left.sent) : ({ s with left } : Duplex R R').Confirmed set := by
  obtain ⟨sends, ns, t, hsends⟩ := h.tracked
  obtain ⟨hset, -, hpending, -⟩ := hp.sending
  obtain ⟨hflown, hlargest', -, -, -, hcount⟩ := hp.flying
  refine ⟨⟨sends, ns ++ r.2, ?_, by rw [hsealed]; exact hsends⟩, fun l hl => ?_, fun m hm kind hkind hrel => ?_⟩
  · unfold Delivery.Tracking
    dsimp only
    rw [hflown, hlargest', hcount]
    exact ht sends ns t
  · dsimp only at hl ⊢
    rw [hlargest'] at hl
    rw [hp.sequence_eq]
    exact h.below l (hlargest.symm.trans hl)
  · dsimp only at hm ⊢
    rw [hsent] at hm
    rw [hsealed]
    rcases h.kept m hm kind hkind hrel with hqueues | hdone
    · rcases Connection.ledger_queues hqueues r with hstill | ⟨n, hn, record, hwhat, hkey⟩
      · refine .inl ?_
        rw [Channels.Queues, hpending]
        exact hstill
      · -- the record is of a packet that carried the message
        have hmem := (ht sends ns t).acked_mem (List.mem_append_right _ hn) hwhat
        obtain ⟨p, hpmem, hnumber, hkeys⟩ := hsends _ _ hmem
        obtain ⟨m', hm', hkey'⟩ := hkeys m.key hkey
        obtain rfl := hdispatched.sound.numbered.key_inj (hdispatched.sent p hpmem m' hm') hm hkey'
        exact .inr ⟨p, hpmem, by rw [hnumber]; exact hread n hn record hwhat, hm'⟩
    · exact .inr hdone

omit [Role R] [LawfulRole R] [OwnOps R] [FrameReader R] [LawfulRole R'] [OwnOps R'] in
/-- A call that leaves the sending side alone. -/
theorem Confirmed.passive (h : s.Confirmed set) (hdispatched : s.Dispatched set) {left : Party R}
    (hp : s.left.conn.Passive left.conn) (hsealed : left.sealed = s.left.sealed) (hsent : left.sent = s.left.sent) :
    ({ s with left } : Duplex R R').Confirmed set :=
  h.ledger hdispatched (r := (s.left.conn.delivery, [])) (fun sends ns t => by simpa using t) rfl (by simp) hp hsealed
    hsent

omit [Role R] [LawfulRole R] [OwnOps R] [FrameReader R] [LawfulRole R'] [OwnOps R'] in
/-- A message accepted waits in the queue. -/
theorem Confirmed.send (h : s.Confirmed set) (hdispatched : s.Dispatched set) {channel : Nat} {payload : List UInt8}
    {c : Channels} (hsend : s.left.conn.channels.send channel payload = (c, .ok ())) {left : Party R}
    (hconn : left.conn = { s.left.conn with channels := c })
    (hsealed : left.sealed = s.left.sealed)
    (hsent : left.sent = s.left.sent ++ [⟨channel, s.left.conn.channels.nextIds channel, payload⟩]) :
    ({ s with left } : Duplex R R').Confirmed set := by
  obtain ⟨r, hitems, -⟩ := Channels.send_ok hdispatched.sound.stocked hsend
  refine ⟨by dsimp only; rw [hconn, hsealed]; exact h.tracked, by dsimp only; rw [hconn]; exact h.below,
    fun m hm kind hkind hrel => ?_⟩
  dsimp only at hm ⊢
  have hqueues : left.conn.channels = c := by rw [hconn]
  rw [hsent] at hm
  rw [hqueues, hsealed]
  rcases List.mem_append.1 hm with hm | hm
  · rcases h.kept m hm kind hkind hrel with ⟨q, hq, hkey⟩ | hdone
    · exact .inl ⟨q, by rw [hitems]; exact List.mem_append_left _ hq, hkey⟩
    · exact .inr hdone
  · obtain rfl := List.mem_singleton.1 hm
    exact .inl ⟨_, by rw [hitems]; exact List.mem_append_right _ (List.mem_singleton.2 rfl), rfl⟩

omit [FrameReader R] [LawfulRole R'] [FrameReader R'] in
/-- A packet's record is of the messages it carries. -/
theorem Confirmed.poll (h : s.Confirmed set) (hjoined : s.Joined up set)
    (now : Timestamp) (out : Packet) :
    ({ s with left := s.left.after (.pollTransmit now out) } : Duplex R R').Confirmed set := by
  have hintact := Connection.reach_intact hjoined.sender
  have hsealed : (s.left.after (.pollTransmit now out)).sealed = s.left.sealed ++
      ((s.left.conn.pollTransmit now out).2.map fun datagram => (⟨s.left.conn.crypto.nextSequence, datagram,
        s.left.conn.carried now out, s.left.conn.crypto.acked.newest⟩ : Parcel)).toList := rfl
  obtain ⟨sends, ns, t, hsends⟩ := h.tracked
  have hkept : ∀ m ∈ s.left.sent ++ [], ∀ kind, set.kind m.channel = some kind → kind.isReliable = true →
      (s.left.conn.pollTransmit now out).1.channels.Queues m.key ∨
        ∃ p ∈ (s.left.after (.pollTransmit now out)).sealed, p.number ∈ s.right.read ∧ m ∈ p.messages := by
    intro m hm kind hkind hrel
    rw [List.append_nil] at hm
    rcases h.kept m hm kind hkind hrel with hqueues | ⟨p, hp, hread, hmem⟩
    · refine .inl (Connection.pollTransmit_queues hintact hqueues ?_ hrel now out)
      rw [hjoined.senderSet]
      exact hkind
    · exact .inr ⟨p, List.mem_append_left _ hp, hread, hmem⟩
  cases hpoll : (s.left.conn.pollTransmit now out).2 with
  | none =>
    obtain ⟨hdelivery, hcrypto⟩ := Connection.pollTransmit_none hintact hpoll
    rw [hpoll, Option.map_none, Option.toList_none, List.append_nil] at hsealed
    refine ⟨⟨sends, ns, ?_, by dsimp only; rw [hsealed]; exact hsends⟩, ?_, hkept⟩
    · show (s.left.conn.pollTransmit now out).1.delivery.Tracking sends ns
      rw [hdelivery]
      exact t
    · show ∀ l, (s.left.conn.pollTransmit now out).1.delivery.largestSent = some l →
        l < (s.left.conn.pollTransmit now out).1.crypto.nextSequence
      rw [hdelivery, hcrypto]
      exact h.below
  | some datagram =>
    obtain ⟨-, hdelivery⟩ := Connection.pollTransmit_some hintact hpoll
    have hnext : (s.left.conn.pollTransmit now out).1.crypto.nextSequence = s.left.conn.crypto.nextSequence + 1 := by
      obtain ⟨-, hnone | ⟨_, -, hseq, -⟩⟩ := Connection.after_numbered hintact (.pollTransmit now out)
      · exact absurd (hpoll.symm.trans hnone.1) (by simp)
      · exact hseq
    have hsent := t.onSent now (s.left.conn.outgoing now out) h.below
    rw [← hdelivery] at hsent
    refine ⟨⟨_, _, hsent, fun q record hmem => ?_⟩, fun l hl => ?_, hkept⟩
    · rcases List.mem_append.1 hmem with hmem | hmem
      · obtain ⟨p, hp, hrest⟩ := hsends q record hmem
        exact ⟨p, List.mem_append_left _ hp, hrest⟩
      · cases hgoing : s.left.conn.outgoing now out with
        | ackOnly => rw [hgoing] at hmem; cases hmem
        | eliciting r =>
          rw [hgoing] at hmem
          obtain ⟨rfl, rfl⟩ := Prod.mk.inj (List.mem_singleton.1 hmem)
          rw [hpoll] at hsealed
          exact ⟨_, by dsimp only; rw [hsealed]; exact List.mem_append_right _ (List.mem_singleton.2 rfl), rfl,
            Connection.outgoing_carried hgoing⟩
    · show l < (s.left.conn.pollTransmit now out).1.crypto.nextSequence
      rw [hnext]
      exact Delivery.onSent_below h.below now (s.left.conn.outgoing now out) l (by rw [← hdelivery]; exact hl)

omit [LawfulRole R'] [FrameReader R'] in
/-- **An acknowledgement is true**: what a packet of the right's confirms, in
its header and its history bits, the right has read. -/
theorem Answering.confirms (h : s.Answering set) (hjoined : s.Joined up set) (hback : s.swap.Joined down set)
    (hdown : down.OpensOwn) {call : Call R} (hgenuine : s.Genuine (.left call))
    (hcurrent : s.left.Current s.right.sealed call) {crypto : PacketCrypto} {opened : Decrypted}
    (hopen : s.left.conn.opens call = some (crypto, opened)) {ack : Nat}
    (hack : opened.header.ack.bind s.left.conn.crypto.resolveAck = some ack) :
    ∀ q, Delivery.Names ack opened.header.ackBits q → q ∈ s.right.read := by
  obtain ⟨p, hp, -, -, now, sender, rfl, -⟩ := hback.opens hdown hgenuine hopen
  have hp : p ∈ s.right.sealed := hp
  obtain ⟨header, fs, ms, hwritten, hacks, hnames⟩ := h.answers p hp
  obtain ⟨hheader, -⟩ := hback.receives hdown hp rfl hopen hwritten
  rw [hheader, hacks] at hack
  rw [hheader]
  cases hnewest : p.acks with
  | none =>
    rw [hnewest] at hack
    cases hack
  | some newest =>
    rw [hnewest, Option.map_some, Option.bind_some] at hack
    have hread := hnames newest hnewest newest (.inl rfl)
    obtain ⟨x, hx, rfl⟩ := hjoined.opened newest (h.opened newest hread)
    obtain ⟨hpos, hlt, hmax⟩ := hjoined.number_lt hx
    have hnear : s.left.conn.crypto.nextSequence ≤ x.number + 32768 := hcurrent p hp rfl x.number hnewest
    have hresolve : s.left.conn.crypto.resolveAck (Sequence.toWire x.number) = some x.number := by
      have hsub : Sequence.checkedSub s.left.conn.crypto.nextSequence 1 =
          some (s.left.conn.crypto.nextSequence - 1) := by
        unfold Sequence.checkedSub Sequence.ofCounter
        rw [if_neg (by omega)]
      rw [PacketCrypto.resolveAck, hsub, Option.bind_some, Sequence.resolve_near hpos hmax
        (by rw [Option.getD_some]; omega) (by rw [Option.getD_some]; omega), Option.filter_some, if_pos]
      exact decide_eq_true (by omega)
    obtain rfl : x.number = ack := Option.some.inj (hresolve.symm.trans hack)
    exact hnames x.number hnewest

omit [LawfulRole R'] in
theorem Confirmed.left (h : s.Confirmed set) (hdispatched : s.Dispatched set) (hanswering : s.Answering set)
    (hjoined : s.Joined up set) (hback : s.swap.Joined down set) (hdown : down.OpensOwn) {call : Call R}
    (hgenuine : s.Genuine (.left call)) (hcurrent : s.left.Current s.right.sealed call) :
    ({ s with left := s.left.after call } : Duplex R R').Confirmed set := by
  have hintact := Connection.reach_intact hjoined.sender
  have hlogs : s.left.conn.emitted call = none → s.left.conn.takes call = none →
      (s.left.after call).sealed = s.left.sealed ∧ (s.left.after call).sent = s.left.sent := by
    intro hemitted htakes
    simp [Party.after, Party.parcel, hemitted, htakes]
  cases call with
  | send channel payload =>
    cases hsend : s.left.conn.channels.send channel payload with
    | mk c r =>
      cases r with
      | error e =>
        obtain ⟨hsealed, hsent⟩ := hlogs rfl (by simp [Connection.takes, Connection.send, hsend])
        refine h.passive hdispatched ?_ hsealed hsent
        simp only [Party.after, Connection.after, Connection.send, hsend, Channels.send_error hintact hsend]
        exact .refl _
      | ok u =>
        refine h.send hdispatched hsend ?_ ?_ ?_
        · simp [Party.after, Connection.after, Connection.send, hsend]
        · simp [Party.after, Party.parcel, Connection.emitted]
        · simp [Party.after, Connection.takes, Connection.send, hsend]
  | pollTransmit now out => exact h.poll hjoined now out
  | handleDatagram now sender datagram =>
    obtain ⟨hsealed, hsent⟩ := hlogs rfl rfl
    cases hopen : s.left.conn.opens (.handleDatagram now sender datagram) with
    | none =>
      refine h.passive hdispatched ?_ hsealed hsent
      rw [Party.after, Connection.after, (Connection.opens_none hopen).1]
      exact .refl _
    | some o =>
      obtain ⟨crypto, opened⟩ := o
      rcases Connection.after_acked hopen with ⟨-, hp⟩ | ⟨now', ack, hack, hp⟩
      · exact h.passive hdispatched hp hsealed hsent
      · have hread := hanswering.confirms hjoined hback hdown hgenuine hcurrent hopen hack
        exact h.ledger hdispatched (fun sends ns t => t.onAck now' ack _ _) (Delivery.onAck_largestSent ..)
          (fun n hn record hwhat => hread _ (Delivery.onAck_names _ _ _ _ _ n hn record hwhat)) hp hsealed hsent
  | handleTimeout now =>
    obtain ⟨hsealed, hsent⟩ := hlogs rfl rfl
    have hdoes : s.left.conn.Does (.handleTimeout now) (s.left.after (.handleTimeout now)).conn :=
      Connection.after_does s.left.conn (.handleTimeout now)
    generalize s.left.after (.handleTimeout now) = left at hdoes hsealed hsent
    generalize hc : left.conn = c' at hdoes
    cases hdoes with
    | passive hp => exact h.passive hdispatched (by rw [hc]; exact hp) hsealed hsent
    | timedOut hp =>
      exact h.ledger hdispatched (fun sends ns t => t.onTimeout now) (Delivery.onTimeout_largestSent ..)
        (fun n hn record hwhat => absurd hwhat (Delivery.onTimeout_noAck _ now n hn record)) (by rw [hc]; exact hp)
        hsealed hsent
  | close reason =>
    exact h.passive hdispatched (Connection.close_passive s.left.conn reason) (hlogs rfl rfl).1 (hlogs rfl rfl).2
  | pollEvent => exact h.passive hdispatched ⟨rfl, rfl, rfl, rfl, rfl, rfl⟩ (hlogs rfl rfl).1 (hlogs rfl rfl).2
  | own op =>
    exact h.passive hdispatched (OwnOps.touched op s.left.conn).passive (hlogs rfl rfl).1 (hlogs rfl rfl).2

theorem reach_confirmed [Marked R] [Marked R'] [Peer R R'] [Peer R' R] (hup : up.OpensOwn) (hdown : down.OpensOwn)
    (h : Lts.Reach (sys R R' up down set) Answered s) : s.Dispatched set ∧ s.Answering set ∧ s.Confirmed set := by
  refine Lts.Reach.invariant (P := fun s => s.Dispatched set ∧ s.Answering set ∧ s.Confirmed set) ?_ ?_ h
  · intro s hstart
    have hdispatched := start_dispatched hstart
    obtain ⟨id, now, addr, transport, owed, role, now', addr', transport', owed', role', hfresh, hfresh', rfl⟩ := hstart
    exact ⟨hdispatched,
      ⟨⟨fun _ _ => List.not_mem_nil, fun newest hn => by cases hn⟩, fun q hq => (by cases hq), fun p hp => (by cases hp)⟩,
      ⟨[], [], Ack.Ledger.start_tracking now transport.maxAckDelay, fun q record hmem => (by cases hmem)⟩,
      fun l hl => (by cases hl), fun m hm => (by cases hm)⟩
  · intro s op s' hreach hs hop hnext
    obtain ⟨hdispatched, hanswering, hconfirmed⟩ := hs
    have hjoined := reach_joined hup (fun _ _ hg => hg.1) hreach
    cases op with
    | left call =>
      have hback : s.swap.Joined down set :=
        reach_joined hdown (fun _ _ hg => hg.1) (reach_swap answered_swap hreach)
      have hdispatched' := hdispatched.left hjoined hop.2.1 hnext
      obtain ⟨rfl, -⟩ := next_left hnext
      exact ⟨hdispatched', ⟨hanswering.window, hanswering.opened, hanswering.answers⟩,
        hconfirmed.left hdispatched hanswering hjoined hback hdown hop.1 hop.2.2⟩
    | right call =>
      obtain ⟨rfl, -⟩ := next_right hnext
      exact ⟨hdispatched.right hjoined call, hanswering.right hjoined call, hconfirmed.right call⟩

/-- **Nothing reliable is lost.** Two connections, any calls on either side at
any times, any network, as long as no channel's ids wrap and each packet that
arrives acknowledges one of the last 32768 sent: a message accepted on a reliable
channel is queued still, or was in a packet that the other side opened and read
to its end. The sender lets go of nothing on a false acknowledgement. -/
theorem released_was_read [Marked R] [Marked R'] [Peer R R'] [Peer R' R] (hup : up.OpensOwn) (hdown : down.OpensOwn)
    (h : Lts.Reach (sys R R' up down set) Answered s) {kind : ChannelKind} (hrel : kind.isReliable = true) :
    (∀ m ∈ s.left.sent, set.kind m.channel = some kind →
        s.left.conn.channels.Queues m.key ∨ ∃ p ∈ s.left.sealed, p.number ∈ s.right.read ∧ m ∈ p.messages) ∧
      ∀ m ∈ s.right.sent, set.kind m.channel = some kind →
        s.right.conn.channels.Queues m.key ∨ ∃ p ∈ s.right.sealed, p.number ∈ s.left.read ∧ m ∈ p.messages :=
  ⟨fun m hm hkind => (reach_confirmed hup hdown h).2.2.kept m hm kind hkind hrel,
    fun m hm hkind => (reach_confirmed hdown hup (reach_swap answered_swap h)).2.2.kept m hm kind hkind hrel⟩

/-- What the client answers the greeting with, a second later. -/
def receipt : List UInt8 :=
  ((Connection.listening.after (.handleDatagram .zero (.v4 0 0) greeting)).pollTransmit ⟨1000000000, by decide⟩
    Connection.blank).2.getD []

set_option maxRecDepth 10000 in
/-- The server lets the greeting go once the client has confirmed it. -/
theorem released_was_read_receipt :
    ∃ s, Lts.Reach (sys Server Client .clear .clear Connection.twoKinds) Answered s ∧
      s.left.sent = [⟨0, 0, [1, 2]⟩] ∧ s.left.conn.channels.pending.items = [] ∧
      (∀ m ∈ s.left.sent, Connection.twoKinds.kind m.channel = some .reliableOrdered →
        s.left.conn.channels.Queues m.key ∨ ∃ p ∈ s.left.sealed, p.number ∈ s.right.read ∧ m ∈ p.messages) := by
  obtain ⟨s, hreach, hsent, hpending⟩ := Lts.Reach.evaluates
    (M := sys Server Client .clear .clear Connection.twoKinds) (fun _ _ _ hs => hs) (opening_reach Answered)
    [.left (.send 0 [1, 2]), .left (.pollTransmit .zero Connection.blank),
      .right (.handleDatagram .zero (.v4 0 0) greeting),
      .right (.pollTransmit ⟨1000000000, by decide⟩ Connection.blank),
      .left (.handleDatagram ⟨1000000000, by decide⟩ (.v4 0 0) receipt)]
    (fun s => s.left.sent = [⟨0, 0, [1, 2]⟩] ∧ s.left.conn.channels.pending.items = []) (by decide +kernel)
  exact ⟨s, hreach, hsent, hpending,
    (released_was_read Aead.clear_opensOwn Aead.clear_opensOwn hreach
      (show ChannelKind.reliableOrdered.isReliable = true from rfl)).1⟩

end Duplex

end HexNet
