/-
Packet numbers along one direction of a connection: a sender that seals
packets as `poll_transmit` does, and a receiver that opens them in whatever
order they come, if they come, as often as they come.

The sender's counter moves only when a packet is sealed, so the packets are
numbered one after another. A number travels as its low sixteen bits. The
receiver resolves them against the newest number it has accepted; resolved
wrongly they name another nonce, under which the packet does not open. Its
window answers for every number accepted among the last 64
(`ReceiveWindow.Remembers`), and refuses what it cannot answer for.
-/
import HexNet.ConnectionFacts
import HexNet.Lib.Window

namespace HexNet

open LeBytes

/-! ## The window -/

/-- The window answers for the numbers in `S`. -/
structure ReceiveWindow.Remembers (w : ReceiveWindow) (S : Nat → Prop) : Prop where
  fresh : w.newest = none → ∀ i, ¬ S i
  tracks : ∀ newest, w.newest = some newest → Window.Tracks w.mask newest S

namespace ReceiveWindow

/-- What is accepted is new, and not older than the window reaches. -/
theorem Remembers.check_iff {w : ReceiveWindow} {S : Nat → Prop} (h : w.Remembers S) (seq : Nat) :
    w.check seq = .ok () ↔ ¬ S seq ∧ w.newest.getD 0 < seq + 64 := by
  unfold check
  split
  next hnone => simp [h.fresh hnone seq, hnone]
  next newest hsome =>
    have htracks := h.tracks newest hsome
    rw [hsome, Option.getD_some]
    split
    next hnew =>
      have hnot : ¬ S seq := fun hs => absurd (htracks.le seq hs) (by omega)
      simp only [hnot, not_false_iff, true_and, true_iff]
      omega
    next hold =>
      split
      next hfar => simpa using fun _ => by omega
      next hnear =>
        have hbit := htracks.bit seq (newest - seq) (by omega) (by omega)
        have hreach : newest < seq + 64 := by omega
        split
        next hset => simp [hbit.1 hset]
        next hclear =>
          have hnot : ¬ S seq := fun hs => hclear (hbit.2 hs)
          simp [hreach, hnot]

/-- A number that may be accepted is answered for once it is recorded. -/
theorem Remembers.insert {w : ReceiveWindow} {S : Nat → Prop} (h : w.Remembers S) {seq : Nat}
    (hreach : w.newest.getD 0 < seq + 64) : (w.insert seq).Remembers fun i => i = seq ∨ S i := by
  unfold ReceiveWindow.insert
  split
  next hnone =>
    refine ⟨by simp, ?_⟩
    rintro _ ⟨⟩
    exact (Window.tracks_one 64 seq).congr fun i => by simp [h.fresh hnone]
  next newest hsome =>
    have htracks := h.tracks newest hsome
    rw [hsome, Option.getD_some] at hreach
    split
    next hold =>
      rw [if_pos (by omega)]
      refine ⟨fun hnone => absurd (hsome.symm.trans hnone) (by simp), fun n hn => ?_⟩
      obtain rfl : newest = n := Option.some.inj (hsome.symm.trans hn)
      exact htracks.insert (by omega)
    next hnew =>
      refine ⟨by simp, ?_⟩
      rintro _ ⟨⟩
      have hadv := htracks.advance (d := seq - newest) (by omega)
      rwa [Nat.add_sub_cancel' (by omega)] at hadv

end ReceiveWindow

/-! ## Opening -/

/-- A packet opens under no nonce but the one it was sealed with. -/
def Aead.OpensOwn (a : Aead) : Prop :=
  ∀ nonce nonce' aad body r, nonce.length = nonceLen → nonce'.length = nonceLen →
    a.encrypt nonce aad body = some r → (a.decrypt nonce' aad r.1 r.2).isSome = true → nonce' = nonce

theorem Aead.clear_opensOwn : Aead.clear.OpensOwn := by
  rintro nonce nonce' aad body r hlen hlen' hseal hopen
  cases hseal
  dsimp only [Aead.clear] at hopen
  split at hopen
  next heq =>
    have hcut : ∀ n : List UInt8, n.length = nonceLen →
        (n ++ List.replicate tagLen 0).take tagLen = n ++ List.replicate 4 0 := by
      intro n hn
      rw [List.take_append, hn, List.take_of_length_le (by rw [hn]; decide)]
      rfl
    rw [hcut _ hlen, hcut _ hlen'] at heq
    exact (List.append_cancel_right heq).symm
  · cases hopen

namespace Cipher

theorem length_nonce (c : Cipher) (seq : Nat) : (c.nonce seq).length = nonceLen := by
  simp [nonce, nonceLen]

theorem nonce_inj (c : Cipher) {p q : Nat} (hp : p < 2 ^ 64) (hq : q < 2 ^ 64) (h : c.nonce p = c.nonce q) :
    p = q := by
  have h := congrArg leNat (List.append_cancel_left h)
  rwa [leNat_leBytes, leNat_leBytes, Nat.mod_eq_of_lt (by omega), Nat.mod_eq_of_lt (by omega)] at h

/-- What is opened of a header with a ciphertext and its tag behind it. -/
theorem decrypt_append (c : Cipher) (seq : Nat) (header body : List UInt8) {tag : List UInt8}
    (htag : tag.length = tagLen) :
    c.decrypt seq (header ++ (body ++ tag)) header.length = c.inner.decrypt (c.nonce seq) header body tag := by
  have hlen : (header ++ (body ++ tag)).length - header.length - tagLen = body.length := by
    simp only [List.length_append, htag]
    omega
  have hroom : ¬ (header ++ (body ++ tag)).length < header.length + tagLen := by
    simp only [List.length_append, htag]
    omega
  rw [decrypt, if_neg hroom]
  dsimp only
  rw [hlen, List.take_left, List.drop_left, List.take_left, List.drop_left]

/-- `datagram` is a payload packet sealed under the number `seq`. -/
structure Seals (c : Cipher) (seq : Nat) (datagram : List UInt8) (header : Header) (body : List UInt8)
    (sealed : List UInt8 × List UInt8) : Prop where
  plain : header.Plain
  kind : header.kind = .payload
  sequence : header.sequence = Sequence.toWire seq
  encrypt : c.inner.encrypt (c.nonce seq) header.bytes body = some sealed
  datagram_eq : datagram = header.bytes ++ (sealed.1 ++ sealed.2)

def Sealed (c : Cipher) (seq : Nat) (datagram : List UInt8) : Prop :=
  ∃ header body sealed, c.Seals seq datagram header body sealed

end Cipher

/-- Numbers resolve to numbers of 64 bits, and never to zero. -/
theorem Sequence.resolve_lt {reference : Option Nat} {wire : WireSequence} {seq : Nat}
    (h : Sequence.resolve reference wire = some seq) : seq < 2 ^ 64 := by
  obtain ⟨full, hfull, hseq⟩ := Option.bind_eq_some_iff.1 h
  simp only [reconstruct, Option.ite_none_right_eq_some, Option.some.injEq] at hfull
  simp only [Sequence.ofCounter, Option.ite_none_left_eq_some, Option.some.injEq] at hseq
  omega

theorem Sequence.resolve_near {reference : Option Nat} {seq : Nat} (hpos : 0 < seq) (hlt : seq < 2 ^ 64)
    (h₁ : seq ≤ reference.getD 0 + 32767) (h₂ : reference.getD 0 ≤ seq + 32767) :
    Sequence.resolve reference (Sequence.toWire seq) = some seq := by
  rw [Sequence.resolve, Sequence.toWire, reconstruct_near h₁ (by omega) hlt, Option.bind_some, Sequence.ofCounter,
    if_neg (by omega)]

namespace PacketCrypto

/-- What decrypting a sealed packet comes to: its wire bits resolved, the
window asked, and the packet opened under what they resolved to. -/
theorem decrypt_sealed {c : PacketCrypto} {seq : Nat} {datagram body : List UInt8} {header : Header}
    {sealed : List UInt8 × List UInt8} (h : c.rx.Seals seq datagram header body sealed) :
    c.decrypt datagram =
      match Sequence.resolve c.replay.newest (Sequence.toWire seq) with
      | none => .error .malformed
      | some resolved =>
        match c.replay.check resolved with
        | .error e => .error (.replay e)
        | .ok () =>
          match c.rx.inner.decrypt (c.rx.nonce resolved) header.bytes sealed.1 sealed.2 with
          | none => .error .unauthenticated
          | some body =>
            .ok ({ c with replay := c.replay.insert resolved },
              ⟨resolved, header, body, c.replay.newest.all fun newest => resolved == newest + 1⟩) := by
  have htag := (c.rx.inner.encrypt_len _ _ _ _ h.encrypt).2
  rw [decrypt, h.datagram_eq, Header.decode_bytes h.plain]
  dsimp only
  rw [if_neg (by simp [h.kind]), h.sequence]
  cases Sequence.resolve c.replay.newest (Sequence.toWire seq) with
  | none => rfl
  | some resolved =>
    dsimp only
    cases c.replay.check resolved with
    | error e => rfl
    | ok u =>
      dsimp only
      rewrite [Cipher.decrypt_append _ _ _ _ htag]
      rfl

/-- A sealed packet is accepted only under its own number, and only where the
window has no objection. -/
theorem decrypt_sealed_ok {c c' : PacketCrypto} {seq : Nat} {datagram : List UInt8} {opened : Decrypted}
    (hown : c.rx.inner.OpensOwn) (hlt : seq < 2 ^ 64) (h : c.rx.Sealed seq datagram)
    (hok : c.decrypt datagram = .ok (c', opened)) :
    opened.sequence = seq ∧ c.replay.check seq = .ok () ∧ c' = { c with replay := c.replay.insert seq } := by
  obtain ⟨header, body, sealed, h⟩ := h
  rw [decrypt_sealed h] at hok
  split at hok
  · cases hok
  next resolved hresolve =>
    split at hok
    · cases hok
    next hcheck =>
      split at hok
      · cases hok
      next plain hopen =>
        cases hok
        have hnonce := hown _ _ _ _ _ (c.rx.length_nonce _) (c.rx.length_nonce _) h.encrypt (by rw [hopen]; rfl)
        obtain rfl := c.rx.nonce_inj (Sequence.resolve_lt hresolve) hlt hnonce
        exact ⟨rfl, hcheck, rfl⟩

/-- Near the newest number, a sealed packet the window has no objection to is
accepted. -/
theorem decrypt_sealed_near {c : PacketCrypto} {seq : Nat} {datagram : List UInt8} (hpos : 0 < seq) (hlt : seq < 2 ^ 64)
    (h₁ : seq ≤ c.replay.newest.getD 0 + 32767) (h₂ : c.replay.newest.getD 0 ≤ seq + 32767)
    (h : c.rx.Sealed seq datagram) (hcheck : c.replay.check seq = .ok ()) :
    ∃ r, c.decrypt datagram = .ok r := by
  obtain ⟨header, body, sealed, h⟩ := h
  have hopen := c.rx.inner.decrypt_encrypt _ _ _ _ h.encrypt
  rw [decrypt_sealed h, Sequence.resolve_near hpos hlt h₁ h₂]
  dsimp only
  rw [hcheck]
  dsimp only
  rw [hopen]
  exact ⟨_, rfl⟩

end PacketCrypto

/-! ## Sealing -/

namespace Connection

variable {R : Type}

theorem buildHeader_spec (c : Connection R) (now : Timestamp) :
    (c.buildHeader now).Plain ∧ (c.buildHeader now).kind = .payload ∧
      (c.buildHeader now).sequence = Sequence.toWire c.crypto.nextSequence := by
  unfold buildHeader
  split
  · exact ⟨fun h => absurd h (by simp), rfl, rfl⟩
  · exact ⟨fun _ => ⟨rfl, rfl⟩, rfl, rfl⟩

def emitted (c : Connection R) [OwnOps R] : Call R → Option (List UInt8)
  | .pollTransmit now out => (c.pollTransmit now out).2
  | _ => none

theorem transmitted_crypto (c : Connection R) (now : Timestamp) (crypto : PacketCrypto) (staged : PacketMessages)
    (len : Nat) (eliciting : Bool) : (c.transmitted now crypto staged len eliciting).crypto = crypto := by
  rw [transmitted, (noticeSent_same _).2.2.1]
  rfl

/-- A packet built consumes a number, and is sealed under it; one given up
consumes none. -/
theorem Builds.numbered {c : Connection R} {now : Timestamp} {r : Connection R × Option (List UInt8)}
    (h : c.Builds now r) :
    r.1.crypto.tx = c.crypto.tx ∧
      ((r.2 = none ∧ r.1.crypto.nextSequence = c.crypto.nextSequence) ∨
        ∃ datagram, r.2 = some datagram ∧ r.1.crypto.nextSequence = c.crypto.nextSequence + 1 ∧
          c.crypto.tx.Sealed c.crypto.nextSequence datagram) := by
  cases h with
  | aborted => exact ⟨rfl, .inl ⟨rfl, rfl⟩⟩
  | built hfilled hsealed =>
    obtain ⟨hplain, hkind, hseq⟩ := c.buildHeader_spec now
    refine ⟨by rw [transmitted_crypto], .inr ⟨_, rfl, by rw [transmitted_crypto], ?_⟩⟩
    exact ⟨_, _, _, hplain, hkind, hseq, hsealed, rfl⟩

theorem Does.sameNumbers [OwnOps R] {c c' : Connection R} {call : Call R} (h : c.Does call c')
    (hcall : ∀ now out, call ≠ .pollTransmit now out) :
    c'.crypto.tx = c.crypto.tx ∧ c'.crypto.nextSequence = c.crypto.nextSequence := by
  cases h with
  | passive hp => exact ⟨hp.tx_eq, hp.sequence_eq⟩
  | sent => exact ⟨rfl, rfl⟩
  | acked ack ackDelay bits _ hp => exact ⟨hp.tx_eq, hp.sequence_eq⟩
  | timedOut hp => exact ⟨hp.tx_eq, hp.sequence_eq⟩
  | polled now out => exact absurd rfl (hcall now out)

/-- **What a call does to the numbers.** -/
theorem after_numbered [Role R] [LawfulRole R] [OwnOps R] {c : Connection R} (h : c.channels.Intact) (call : Call R) :
    (c.after call).crypto.tx = c.crypto.tx ∧
      ((c.emitted call = none ∧ (c.after call).crypto.nextSequence = c.crypto.nextSequence) ∨
        ∃ datagram, c.emitted call = some datagram ∧
          (c.after call).crypto.nextSequence = c.crypto.nextSequence + 1 ∧
          c.crypto.tx.Sealed c.crypto.nextSequence datagram) := by
  by_cases hpoll : ∃ now out, call = .pollTransmit now out
  · obtain ⟨now, out, rfl⟩ := hpoll
    rcases pollTransmit_cases h now out with ⟨-, heq⟩ | ⟨-, hbuilds⟩
    · simp only [after, emitted, heq]
      exact ⟨rfl, .inl ⟨trivial, rfl⟩⟩
    · exact hbuilds.numbered
  · have hcall : ∀ now out, call ≠ .pollTransmit now out := fun now out he => hpoll ⟨now, out, he⟩
    obtain ⟨htx, hseq⟩ := (after_does c call).sameNumbers hcall
    refine ⟨htx, .inl ⟨?_, hseq⟩⟩
    cases call with
    | pollTransmit now out => exact absurd rfl (hcall now out)
    | _ => rfl

end Connection

/-! ## One direction -/

open Connection

/-- A sender and the receiver of what it sends. -/
structure OneWay (R : Type) where
  sender : Connection R
  /-- The datagrams sealed so far, each with the number it was sealed under. -/
  sealed : List (Nat × List UInt8)
  receiver : PacketCrypto
  /-- The numbers accepted so far. -/
  accepted : List Nat

inductive OneWayOp (R : Type) [OwnOps R]
  | call (call : Call R)
  /-- The datagram at this place, or a copy of it, reaches the receiver. -/
  | arrive (i : Nat)
  /-- The receiver finds a packet worth acknowledging. -/
  | elicit (sequence : Nat) (now : Timestamp)
  /-- The receiver seals a packet of its own. -/
  | encrypt (buf : List UInt8) (headerLen bodyEnd : Nat)

namespace OneWay

variable {R : Type}

/-- The receiver opens a datagram, or refuses it. -/
def deliver (s : OneWay R) (datagram : List UInt8) : OneWay R :=
  match s.receiver.decrypt datagram with
  | .ok (receiver, opened) => { s with receiver, accepted := s.accepted ++ [opened.sequence] }
  | .error _ => s

variable [Role R] [OwnOps R]

/-- A counter that would reach `2 ^ 64` stops the program. -/
def next (s : OneWay R) : OneWayOp R → Option (OneWay R)
  | .call call =>
    let sender := s.sender.after call
    if sender.crypto.nextSequence < 2 ^ 64 then
      some { s with
        sender
        sealed := s.sealed ++ ((s.sender.emitted call).map fun d => (s.sender.crypto.nextSequence, d)).toList }
    else none
  | .arrive i => s.sealed[i]?.map fun p => s.deliver p.2
  | .elicit sequence now => some { s with receiver := s.receiver.recordEliciting sequence now }
  | .encrypt buf headerLen bodyEnd =>
    some { s with receiver := ((s.receiver.encrypt buf headerLen bodyEnd).map Prod.fst).getD s.receiver }

/-- Both sides have the connection's id, and the receiver opens with the key
the sender seals with. -/
def sys (R : Type) [Role R] [OwnOps R] (key : Aead) : Lts.Sys (OneWay R) (OneWayOp R) where
  start s := ∃ now id addr tx rx set transport owed role, OwnOps.Fresh owed role ∧
    s = ⟨.new now id addr key rx set transport owed role, [], .new id tx key, []⟩
  step s op s' := s.next op = some s'

/-- The datagrams are numbered from one on, and the receiver's window answers
for those it accepted. -/
structure Numbered (key : Aead) (s : OneWay R) : Prop where
  sender : Lts.Reachable (Connection.sys R) s.sender
  next_eq : s.sender.crypto.nextSequence = s.sealed.length + 1
  next_lt : s.sender.crypto.nextSequence < 2 ^ 64
  numbers : s.sealed.map Prod.fst = List.range' 1 s.sealed.length
  genuine : ∀ p ∈ s.sealed, s.sender.crypto.tx.Sealed p.1 p.2
  inner : s.sender.crypto.tx.inner = key
  rx_eq : s.receiver.rx = s.sender.crypto.tx
  remembers : s.receiver.replay.Remembers (· ∈ s.accepted)
  once : s.accepted.Nodup

namespace Numbered

variable {key : Aead} {s s' : OneWay R}

theorem bounds (h : s.Numbered key) {p : Nat × List UInt8} (hp : p ∈ s.sealed) : 0 < p.1 ∧ p.1 < 2 ^ 64 := by
  have hmem : p.1 ∈ List.range' 1 s.sealed.length := by
    rw [← h.numbers]
    exact List.mem_map_of_mem hp
  have hnext := h.next_eq
  have hlt := h.next_lt
  rw [List.mem_range'_1] at hmem
  omega

theorem sealed_rx (h : s.Numbered key) {p : Nat × List UInt8} (hp : p ∈ s.sealed) :
    s.receiver.rx.Sealed p.1 p.2 := by
  rw [h.rx_eq]
  exact h.genuine p hp

theorem rx_inner (h : s.Numbered key) : s.receiver.rx.inner = key := by rw [h.rx_eq, h.inner]

theorem call [LawfulRole R] (h : s.Numbered key) {call : Call R} (hs : s.next (.call call) = some s') :
    s'.Numbered key := by
  have hnext := h.next_eq
  obtain ⟨htx, hnumbers⟩ := after_numbered (reach_intact h.sender) call
  dsimp only [next] at hs
  split at hs
  next hlt =>
    cases hs
    have hreach : Lts.Reachable (Connection.sys R) (s.sender.after call) := .step h.sender trivial rfl
    have hinner : (s.sender.after call).crypto.tx.inner = key := by rw [htx, h.inner]
    have hrx : s.receiver.rx = (s.sender.after call).crypto.tx := by rw [htx, h.rx_eq]
    rcases hnumbers with ⟨hnone, hseq⟩ | ⟨datagram, hsome, hseq, hsealed⟩
    · rw [hnone]
      simp only [Option.map_none, Option.toList_none, List.append_nil]
      exact ⟨hreach, hseq.trans hnext, hlt, h.numbers, by rw [htx]; exact h.genuine, hinner, hrx, h.remembers, h.once⟩
    · rw [hsome]
      simp only [Option.map_some, Option.toList_some]
      refine ⟨hreach, ?_, hlt, ?_, ?_, hinner, hrx, h.remembers, h.once⟩
      · rw [List.length_append, List.length_singleton, hseq, hnext]
      · rw [List.map_append, h.numbers, List.length_append, List.length_singleton, List.range'_concat]
        simp [hnext, Nat.add_comm]
      · intro p hp
        rw [htx]
        rcases List.mem_append.1 hp with hp | hp
        · exact h.genuine p hp
        · obtain rfl := List.mem_singleton.1 hp
          exact hsealed
  · cases hs

/-- A genuine datagram is accepted as itself, or changes nothing. -/
theorem deliver (h : s.Numbered key) (hown : key.OpensOwn) {p : Nat × List UInt8} (hp : p ∈ s.sealed) :
    (s.deliver p.2).Numbered key := by
  rw [← h.rx_inner] at hown
  unfold OneWay.deliver
  split
  next receiver opened hok =>
    obtain ⟨hseq, hcheck, rfl⟩ := PacketCrypto.decrypt_sealed_ok hown (h.bounds hp).2 (h.sealed_rx hp) hok
    obtain ⟨hnew, hreach⟩ := (h.remembers.check_iff p.1).1 hcheck
    rw [hseq]
    refine ⟨h.sender, h.next_eq, h.next_lt, h.numbers, h.genuine, h.inner, h.rx_eq, ?_, ?_⟩
    · simpa [or_comm] using h.remembers.insert hreach
    · exact List.nodup_append.2 ⟨h.once, by simp, fun a ha b hb he => by
        obtain rfl := List.mem_singleton.1 hb
        exact hnew (he ▸ ha)⟩
  · exact h

/-- What the receiver does beside opening touches neither its key nor its window. -/
theorem receiver (h : s.Numbered key) {receiver : PacketCrypto} (hrx : receiver.rx = s.receiver.rx)
    (hreplay : receiver.replay = s.receiver.replay) : Numbered key { s with receiver } :=
  ⟨h.sender, h.next_eq, h.next_lt, h.numbers, h.genuine, h.inner, hrx.trans h.rx_eq, by rw [hreplay]; exact h.remembers,
    h.once⟩

theorem step [LawfulRole R] (h : s.Numbered key) (hown : key.OpensOwn) {op : OneWayOp R}
    (hs : s.next op = some s') : s'.Numbered key := by
  cases op with
  | call call => exact h.call hs
  | arrive i =>
    obtain ⟨p, hp, rfl⟩ := Option.map_eq_some_iff.1 hs
    exact h.deliver hown (List.mem_of_getElem? hp)
  | elicit sequence now =>
    cases hs
    exact h.receiver rfl rfl
  | encrypt buf headerLen bodyEnd =>
    cases hs
    refine h.receiver ?_ ?_ <;> rw [PacketCrypto.encrypt, Option.map_map] <;>
      cases s.receiver.tx.encrypt s.receiver.nextSequence buf headerLen bodyEnd <;> rfl

end Numbered

theorem reach_numbered [LawfulRole R] {key : Aead} (hown : key.OpensOwn) {s : OneWay R}
    (h : Lts.Reachable (sys R key) s) : s.Numbered key := by
  refine Lts.Reach.invariant (P := Numbered key) ?_ ?_ h
  · rintro _ ⟨now, id, addr, tx, rx, set, transport, owed, role, hfresh, rfl⟩
    refine ⟨.start ⟨now, id, addr, key, rx, set, transport, owed, role, hfresh, rfl⟩, rfl,
      show 1 < 2 ^ 64 by decide, rfl, by simp, rfl,
      rfl, ⟨by simp, fun newest hn => by cases hn⟩, .nil⟩
  · rintro s op s' - hs - hnext
    exact hs.step hown hnext

/-- **Packets are numbered one after another, and each number is accepted at
most once.** In every run, whatever arrives in whatever order: the datagrams
sealed are numbered `1, 2, 3, ..`; and one whose number is within 32767 of the
newest accepted is resolved to that number, and is accepted exactly when the
number was never accepted and is less than 64 behind the newest. -/
theorem numbers_agree [LawfulRole R] {key : Aead} (hown : key.OpensOwn) {s : OneWay R}
    (h : Lts.Reachable (sys R key) s) :
    s.sealed.map Prod.fst = List.range' 1 s.sealed.length ∧
      (∀ p ∈ s.sealed, s.sender.crypto.tx.Sealed p.1 p.2) ∧ s.accepted.Nodup ∧
      ∀ p ∈ s.sealed, ∀ newest, s.receiver.replay.newest.getD 0 = newest →
        p.1 ≤ newest + 32767 → newest ≤ p.1 + 32767 →
        (∃ header len, Header.decode p.2 = .ok (header, len) ∧
          Sequence.resolve s.receiver.replay.newest header.sequence = some p.1) ∧
        ((∃ r, s.receiver.decrypt p.2 = .ok r) ↔ p.1 ∉ s.accepted ∧ newest < p.1 + 64) ∧
        ∀ r, s.receiver.decrypt p.2 = .ok r → r.2.sequence = p.1 := by
  have hs := reach_numbered hown h
  rw [← hs.rx_inner] at hown
  refine ⟨hs.numbers, hs.genuine, hs.once, ?_⟩
  rintro p hp _ rfl hahead hbehind
  obtain ⟨hpos, hlt⟩ := hs.bounds hp
  have hsealed := hs.sealed_rx hp
  refine ⟨?_, ?_, fun r hr => (PacketCrypto.decrypt_sealed_ok hown hlt hsealed hr).1⟩
  · obtain ⟨header, body, sealed, hseals⟩ := hsealed
    refine ⟨header, header.bytes.length, ?_, ?_⟩
    · rw [hseals.datagram_eq]
      exact Header.decode_bytes hseals.plain _
    · rw [hseals.sequence]
      exact Sequence.resolve_near hpos hlt hahead hbehind
  · rw [← hs.remembers.check_iff]
    constructor
    · rintro ⟨r, hr⟩
      exact (PacketCrypto.decrypt_sealed_ok hown hlt hsealed hr).2.1
    · exact PacketCrypto.decrypt_sealed_near hpos hlt hahead hbehind hsealed

/-! A run: two packets, of which the second comes first, and comes twice. -/

/-- A server's connection and its client's receiving half, over the clear cipher. -/
def quiet : OneWay Server where
  sender := .accept .zero 0 0 ⟨List.replicate nonceLen 0, TicketId.length_zeros⟩ (.v4 0 0) .clear .clear
    orderedOnly .default
  sealed := []
  receiver := .new 0 .clear .clear
  accepted := []

theorem quiet_reachable : Lts.Reachable (sys Server .clear) quiet :=
  .start ⟨.zero, 0, .v4 0 0, .clear, .clear, orderedOnly, .default,
    { Owed.none with accepted := true }, ⟨0, ⟨List.replicate nonceLen 0, by simp⟩, none⟩, ⟨rfl, rfl⟩, rfl⟩

set_option maxRecDepth 10000 in
/-- Out of order and repeated, each is accepted once. -/
theorem numbers_agree_reordered :
    ∃ s, Lts.Reachable (sys Server .clear) s ∧ s.accepted = [2] ∧ s.sealed.map Prod.fst = [1, 2] ∧
      s.accepted.Nodup := by
  have hrun := Lts.Reach.evaluates (fun _ _ _ hs => hs) quiet_reachable
    [.call (.pollTransmit .zero blank), .call (.own .resendAcceptance), .call (.pollTransmit .zero blank), .arrive 1,
      .arrive 1]
    (fun s => s.accepted = [2] ∧ s.sealed.length = 2) (by decide +kernel)
  obtain ⟨s, hreach, haccepted, hlen⟩ := hrun
  obtain ⟨hnumbers, -, honce, -⟩ := numbers_agree Aead.clear_opensOwn hreach
  refine ⟨s, hreach, haccepted, ?_, honce⟩
  rw [hnumbers, hlen]
  rfl

end OneWay
end HexNet
