/-
What a connection is, through every call: its id, its ciphers, and for a
server's the session and the ticket it was accepted for. And the one way its
lifecycle runs: open, closing, closed.
-/
import HexNet.ConnectionFacts

namespace HexNet

open Connection

namespace Connection

/-- What of a role no call changes. -/
class Marked (R : Type) [Role R] [OwnOps R] where
  Mark : Type
  mark : R → Mark
  readControl : ∀ {c c' : Connection R} {now : Timestamp} {kind : ControlKind} {r r' : BitReader},
    (Role.readControl c now kind).run r = .ok c' r' → c'.id = c.id ∧ mark c'.role = mark c.role
  onAddressChange : ∀ (c : Connection R) now sender sequence,
    (Role.onAddressChange c now sender sequence).id = c.id ∧
      mark (Role.onAddressChange c now sender sequence).role = mark c.role
  onTimeout : ∀ (c : Connection R) now,
    (Role.onTimeout c now).id = c.id ∧ mark (Role.onTimeout c now).role = mark c.role
  own : ∀ (op : OwnOps.Op R) (c : Connection R),
    (OwnOps.apply op c).id = c.id ∧ mark (OwnOps.apply op c).role = mark c.role

end Connection

/-- A client's connection is only its id and its ciphers. -/
instance : Marked Client where
  Mark := Unit
  mark _ := ()
  readControl {c c' now kind r r'} h := by
    refine ⟨?_, rfl⟩
    cases kind with
    | pathChallenge =>
      obtain ⟨token, r₁, -, h⟩ := run_bind_ok h
      cases h
      rfl
    | resumeTicket =>
      obtain ⟨received, r₁, -, h⟩ := run_bind_ok h
      cases h
      rfl
    | accepted =>
      cases h
      rfl
    | _ => cases h
  onAddressChange _ _ _ _ := ⟨rfl, rfl⟩
  onTimeout _ _ := ⟨rfl, rfl⟩
  own _ c := by
    refine ⟨?_, rfl⟩
    show c.takeResumeTicket.1.id = c.id
    unfold takeResumeTicket
    split <;> rfl

/-- A server's serves one session, for one ticket. -/
instance : Marked Server where
  Mark := SessionId × TicketId
  mark role := (role.session, role.ticket)
  readControl {c c' now kind r r'} h := by
    cases kind with
    | pathResponse =>
      obtain ⟨token, r₁, -, h⟩ := run_bind_ok h
      cases h
      unfold Server.pathResponse
      split
      · exact ⟨rfl, rfl⟩
      · split <;> exact ⟨rfl, rfl⟩
    | _ => cases h
  onAddressChange c now sender sequence := by
    show (Server.onAddressChange c now sender sequence).id = _ ∧ (_, _) = (_, _)
    show _ ∧ ((Server.onAddressChange c now sender sequence).role.session,
      (Server.onAddressChange c now sender sequence).role.ticket) = _
    unfold Server.onAddressChange
    split <;> exact ⟨rfl, rfl⟩
  onTimeout c now := by
    show (Server.onTimeout c now).id = _ ∧ ((Server.onTimeout c now).role.session,
      (Server.onTimeout c now).role.ticket) = _
    unfold Server.onTimeout
    split <;> exact ⟨rfl, rfl⟩
  own op c := by cases op <;> exact ⟨rfl, rfl⟩

namespace Connection

variable {R : Type} [Role R] [OwnOps R] [Marked R]

/-- What no call changes, and which way the lifecycle runs. -/
structure Kept (c c' : Connection R) : Prop where
  id_eq : c'.id = c.id
  mark_eq : Marked.mark c'.role = Marked.mark c.role
  tx_eq : c'.crypto.tx = c.crypto.tx
  rx_eq : c'.crypto.rx = c.crypto.rx
  open_of : c'.lifecycle = .open → c.lifecycle = .open
  closed_of : c.lifecycle = .closed → c'.lifecycle = .closed

/-- A change to none of these. -/
theorem Kept.same {c c' : Connection R} (hid : c'.id = c.id) (hrole : Marked.mark c'.role = Marked.mark c.role)
    (htx : c'.crypto.tx = c.crypto.tx) (hrx : c'.crypto.rx = c.crypto.rx) (hlife : c'.lifecycle = c.lifecycle) :
    c.Kept c' :=
  ⟨hid, hrole, htx, hrx, hlife.symm.trans, hlife.trans⟩

theorem Kept.refl (c : Connection R) : c.Kept c := .same rfl rfl rfl rfl rfl

theorem Kept.trans {c₁ c₂ c₃ : Connection R} (h₁ : c₁.Kept c₂) (h₂ : c₂.Kept c₃) : c₁.Kept c₃ where
  id_eq := h₂.id_eq.trans h₁.id_eq
  mark_eq := h₂.mark_eq.trans h₁.mark_eq
  tx_eq := h₂.tx_eq.trans h₁.tx_eq
  rx_eq := h₂.rx_eq.trans h₁.rx_eq
  open_of h := h₁.open_of (h₂.open_of h)
  closed_of h := h₂.closed_of (h₁.closed_of h)

theorem close_kept (c : Connection R) (reason : CloseReason) : c.Kept (c.close reason) := by
  unfold close
  split
  next hopen =>
    refine ⟨rfl, rfl, rfl, rfl, fun _ => hopen, fun hclosed => ?_⟩
    rw [hopen] at hclosed
    cases hclosed
  · exact .refl c

theorem peerClosed_kept (c : Connection R) (reason : CloseReason) : c.Kept (c.peerClosed reason) :=
  ⟨rfl, rfl, rfl, rfl, nofun, fun _ => rfl⟩

theorem noticeSent_kept (c : Connection R) : c.Kept c.noticeSent := by
  unfold noticeSent
  split
  next reason remaining hclosing =>
    split
    · refine ⟨rfl, rfl, rfl, rfl, nofun, fun _ => rfl⟩
    · refine ⟨rfl, rfl, rfl, rfl, nofun, fun hclosed => ?_⟩
      rw [hclosing] at hclosed
      cases hclosed
  · exact .refl c
  · exact .refl c

/-- Reporting the ledger's notices is about the messages and the budget. -/
theorem ledger_kept (c : Connection R)
    (r : Ack.Delivery PacketRecord ledgerSlots × List (Ack.Notice PacketRecord)) : c.Kept (c.ledger r) :=
  .same rfl rfl rfl rfl rfl

theorem transmitted_kept (c : Connection R) (now : Timestamp) (crypto : PacketCrypto) (htx : crypto.tx = c.crypto.tx)
    (hrx : crypto.rx = c.crypto.rx) (staged : PacketMessages) (len : Nat) (eliciting : Bool) :
    c.Kept (c.transmitted now crypto staged len eliciting) := by
  have hcommitted : c.Kept (c.committed now crypto staged eliciting) := by
    refine Kept.trans ?_ (ledger_kept { c with crypto, channels := (c.channels.onPacketSent staged).1 } _)
    exact .same rfl rfl htx hrx rfl
  refine hcommitted.trans (Kept.trans ?_ (noticeSent_kept _))
  exact .same rfl rfl rfl rfl rfl

theorem sealPacket_kept (c : Connection R) (now : Timestamp) (begun : List UInt8) (headerLen : Nat) (w : BitWriter)
    (staged : PacketMessages) (eliciting : Bool) : c.Kept (c.sealPacket now begun headerLen w staged eliciting).1 := by
  unfold sealPacket
  dsimp only
  split
  · exact .same rfl rfl rfl rfl rfl
  next crypto datagram hencrypt =>
    obtain ⟨sealed, -, heq⟩ := Option.map_eq_some_iff.1 hencrypt
    cases heq
    exact transmitted_kept c now { c.crypto with nextSequence := c.crypto.nextSequence + 1 } rfl rfl staged _ eliciting

theorem writeControl_kept (c : Connection R) (w : BitWriter) : c.Kept (c.writeControl w).1 := by
  unfold writeControl
  dsimp only
  unfold writePing
  split
  · dsimp only
    split <;> exact .same rfl rfl rfl rfl rfl
  · exact .same rfl rfl rfl rfl rfl

theorem fillPacket_kept (c : Connection R) (allowance headerLen : Nat) (w : BitWriter) :
    c.Kept (c.fillPacket allowance headerLen w).1 :=
  (writeControl_kept c w).trans (.same rfl rfl rfl rfl rfl)

theorem pollTransmit_kept (c : Connection R) (now : Timestamp) (out : Packet) : c.Kept (c.pollTransmit now out).1 := by
  have hassessed : c.Kept (c.assessed now) := .same rfl rfl rfl rfl rfl
  unfold pollTransmit
  dsimp only
  split
  · have hprepared : (c.assessed now).Kept ((c.assessed now).prepared now) := .same rfl rfl rfl rfl rfl
    have hfilled : (c.assessed now).Kept ((c.assessed now).filling now out).1 :=
      hprepared.trans (fillPacket_kept _ _ _ _)
    refine hassessed.trans (hfilled.trans ?_)
    unfold buildPacket
    dsimp only
    split
    · exact .same rfl rfl rfl rfl rfl
    · exact sealPacket_kept _ now _ _ _ _ _
  · exact hassessed

omit [OwnOps R] [Marked R] in
/-- A connection that refuses a datagram is as it was. -/
theorem handleDatagram_refused {c : Connection R} {now : Timestamp} {sender : SocketAddr}
    {datagram : List UInt8} {error : RecvError} (hbad : error ≠ .badPayload)
    (h : (c.handleDatagram now sender datagram).2.2 = .error error) :
    (c.handleDatagram now sender datagram).1 = c ∧ (c.handleDatagram now sender datagram).2.1 = [] := by
  unfold handleDatagram at h ⊢
  split at h
  next hclosed => rw [if_pos hclosed]; exact ⟨rfl, rfl⟩
  next hopen =>
    rw [if_neg hopen]
    split at h
    next e hdecrypt => exact ⟨rfl, rfl⟩
    next crypto opened hdecrypt =>
      unfold handleOpened at h
      dsimp only at h
      split at h
      · cases h
        exact (hbad rfl).elim
      · cases h

variable [LawfulRole R]

theorem readControl_kept {c c' : Connection R} {now : Timestamp} {r r' : BitReader}
    (h : (c.readControl now).run r = .ok c' r') : c.Kept c' := by
  obtain rfl | ⟨reason, rfl⟩ | ⟨kind, r₁, hrole⟩ := readControl_cases h
  · exact .refl c'
  · exact peerClosed_kept c reason
  · have ht := LawfulRole.readControl hrole
    have hm := Marked.readControl hrole
    exact .same hm.1 hm.2 (by rw [ht.crypto_eq]) (by rw [ht.crypto_eq]) ht.lifecycle_eq

theorem readFrames_kept (now : Timestamp) (fuel : Nat) (c : Connection R) (r : BitReader) (eliciting : Bool) :
    c.Kept (readFrames now fuel c r eliciting).1 :=
  readFrames_rel Kept.refl Kept.trans readControl_kept (fun _ => .same rfl rfl rfl rfl rfl) fuel c r eliciting

theorem received_kept (c : Connection R) (now : Timestamp) (sender : SocketAddr) (opened : Decrypted)
    (eliciting : Bool) : c.Kept (c.received now sender opened eliciting) := by
  refine received_rule (.refl c) (.same rfl rfl rfl rfl rfl) (fun {c'} h => h.trans ?_) eliciting
  have ht := LawfulRole.onAddressChange c' now sender opened.sequence
  obtain ⟨hid, hmark⟩ := Marked.onAddressChange c' now sender opened.sequence
  exact .same hid hmark (by rw [ht.crypto_eq]) (by rw [ht.crypto_eq]) ht.lifecycle_eq

theorem handleDatagram_kept (c : Connection R) (now : Timestamp) (sender : SocketAddr) (datagram : List UInt8) :
    c.Kept (c.handleDatagram now sender datagram).1 := by
  unfold handleDatagram
  split
  · exact .refl c
  · split
    · exact .refl c
    next crypto opened hdecrypt =>
      have hbegun : c.Kept { c with crypto, lastReceived := now } :=
        .same rfl rfl (PacketCrypto.decrypt_tx hdecrypt).2 (PacketCrypto.decrypt_rx hdecrypt) rfl
      have hacked : c.Kept ({ c with crypto, lastReceived := now }.handleAck now opened.header) := by
        refine hbegun.trans ?_
        unfold handleAck
        split
        · exact .refl _
        · exact ledger_kept _ _
      have hread : c.Kept _ := hacked.trans (readFrames_kept now (8 * opened.body.length + 1) _ (.new opened.body) false)
      unfold handleOpened
      dsimp only
      split
      · exact hread.trans (close_kept _ _)
      · exact hread.trans (received_kept _ _ _ _ _)

theorem handleTimeout_kept (c : Connection R) (now : Timestamp) : c.Kept (c.handleTimeout now) := by
  unfold handleTimeout
  split
  · exact .refl c
  next hlive =>
    split
    · exact ⟨rfl, rfl, rfl, rfl, nofun, fun _ => rfl⟩
    · have hroled : ∀ c : Connection R, c.Kept (Role.onTimeout c now) := fun c =>
        have ht := LawfulRole.onTimeout c now
        have hm := Marked.onTimeout c now
        .same hm.1 hm.2 (by rw [ht.crypto_eq]) (by rw [ht.crypto_eq]) ht.lifecycle_eq
      refine Kept.trans ?_ (hroled _)
      have hledger := ledger_kept c ((c.delivery.onTimeout now).1, (c.delivery.onTimeout now).2.1)
      split <;> exact hledger.trans (.same rfl rfl rfl rfl rfl)

/-- **No call changes what a connection is**, and none reopens one. -/
theorem after_kept (c : Connection R) (call : Call R) : c.Kept (c.after call) := by
  cases call with
  | send channel payload => exact .same rfl rfl rfl rfl rfl
  | pollTransmit now out => exact pollTransmit_kept c now out
  | handleDatagram now sender datagram => exact handleDatagram_kept c now sender datagram
  | handleTimeout now => exact handleTimeout_kept c now
  | close reason => exact close_kept c reason
  | pollEvent => exact .same rfl rfl rfl rfl rfl
  | own op =>
    have ht := OwnOps.touched op c
    obtain ⟨hid, hmark⟩ := Marked.own op c
    exact .same hid hmark (congrArg PacketCrypto.tx ht.crypto_eq) (congrArg PacketCrypto.rx ht.crypto_eq) ht.lifecycle_eq

end Connection
end HexNet
