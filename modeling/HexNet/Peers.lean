/-
The two sides as peers: what each may owe the other, over whole runs. `Peer R
R'` is all that is used of a side's control frames, and `reach_proper` that
every connection keeps to it.
-/
import HexNet.Awaiting

namespace HexNet

/-! ## What a side may owe -/

open Connection (OwnOps LawfulRole)

/-- The side `R'` that a connection of side `R` talks to: what `R` may owe, and
that `R'` may receive all of it. -/
class Peer (R : Type) (R' : outParam Type) [Role R] [OwnOps R] [Role R'] [FrameReader R'] where
  MayOwe : Owed → Prop
  fresh : ∀ {owed : Owed} {role : R}, OwnOps.Fresh owed role → MayOwe owed
  none : MayOwe .none
  readControl : ∀ {c c' : Connection R} {now : Timestamp} {kind : ControlKind} {r r' : BitReader},
    (Role.readControl c now kind).run r = .ok c' r' → MayOwe c.control.owed → MayOwe c'.control.owed
  onAddressChange : ∀ (c : Connection R) now sender sequence, MayOwe c.control.owed →
    MayOwe (Role.onAddressChange c now sender sequence).control.owed
  onTimeout : ∀ (c : Connection R) now, MayOwe c.control.owed → MayOwe (Role.onTimeout c now).control.owed
  own : ∀ (op : OwnOps.Op R) (c : Connection R), MayOwe c.control.owed → MayOwe (OwnOps.apply op c).control.owed
  queued : ∀ q : ControlQueue, MayOwe q.owed → ∀ f ∈ q.frames, FrameReader.Receivable R' f
  ping : FrameReader.Receivable R' .ping
  close : ∀ reason, FrameReader.Receivable R' (.close reason)

/-- A server answers no challenges. -/
instance : Peer Server Client where
  MayOwe owed := owed.pathResponse = false
  fresh h := by rw [h.1]; rfl
  none := rfl
  readControl {c c' now kind r r'} h howed := by
    cases kind with
    | pathResponse =>
      obtain ⟨token, r₁, -, h⟩ := run_bind_ok h
      cases h
      unfold Server.pathResponse
      split
      · exact howed
      · split <;> exact howed
    | _ => cases h
  onAddressChange c now sender sequence howed := by
    show (Server.onAddressChange c now sender sequence).control.owed.pathResponse = false
    unfold Server.onAddressChange
    split <;> exact howed
  onTimeout c now howed := by
    show (Server.onTimeout c now).control.owed.pathResponse = false
    unfold Server.onTimeout
    split <;> exact howed
  own op c howed := by cases op <;> exact howed
  queued q howed f hf := by
    simp only [ControlQueue.frames, ControlQueue.owing, howed, List.mem_append, List.mem_ite_nil_right,
      List.mem_singleton] at hf
    rcases hf with ((⟨-, rfl⟩ | ⟨-, rfl⟩) | ⟨hno, -⟩) | ⟨-, rfl⟩
    · trivial
    · trivial
    · cases hno
    · trivial
  ping := trivial
  close _ := trivial

/-- A client answers challenges, and owes nothing else. -/
instance : Peer Client Server where
  MayOwe owed := owed.accepted = false ∧ owed.pathChallenge = false ∧ owed.resumeTicket = false
  fresh h := by rw [h.1]; exact ⟨rfl, rfl, rfl⟩
  none := ⟨rfl, rfl, rfl⟩
  readControl {c c' now kind r r'} h howed := by
    cases kind with
    | pathChallenge =>
      obtain ⟨token, r₁, -, h⟩ := run_bind_ok h
      cases h
      exact howed
    | resumeTicket =>
      obtain ⟨ticket, r₁, -, h⟩ := run_bind_ok h
      cases h
      exact howed
    | accepted =>
      cases h
      exact howed
    | _ => cases h
  onAddressChange _ _ _ _ howed := howed
  onTimeout _ _ howed := howed
  own op c howed := by
    have hsame : c.takeResumeTicket.1.control = c.control := by
      unfold Connection.takeResumeTicket
      split <;> rfl
    exact hsame ▸ howed
  queued q howed f hf := by
    simp only [ControlQueue.frames, ControlQueue.owing, howed, List.mem_append, List.mem_ite_nil_right,
      List.mem_singleton] at hf
    rcases hf with ((⟨hno, -⟩ | ⟨hno, -⟩) | ⟨-, rfl⟩) | ⟨hno, -⟩
    · cases hno
    · cases hno
    · trivial
    · cases hno
  ping := trivial
  close _ := trivial

namespace Connection

variable {R R' : Type}

/-! ## Along whole runs -/

/-- What every run keeps: its receivers have started at the first id, and its
side owes nothing the other may not receive. -/
structure Proper [Role R] [OwnOps R] [Role R'] [FrameReader R'] [Peer R R'] (c : Connection R) : Prop where
  started : c.channels.Started
  owes : Peer.MayOwe R c.control.owed

section

variable [Role R] [OwnOps R] [Role R'] [FrameReader R'] [Peer R R']

theorem Proper.same {c c' : Connection R} (h : c.Proper) (hside : c'.channels.recvSide = c.channels.recvSide)
    (hcontrol : c'.control = c.control) : c'.Proper :=
  ⟨fun channel => by rw [(Channels.recvSide_eq hside).2.1]; exact h.started channel, by rw [hcontrol]; exact h.owes⟩

/-- The other side may receive all of a proper connection's control frames. -/
theorem Proper.receivable {c : Connection R} (h : c.Proper) : ∀ f ∈ c.controlFrames, FrameReader.Receivable R' f := by
  intro f hf
  simp only [controlFrames, List.mem_append] at hf
  rcases hf with (hf | hf) | hf
  · unfold closeFrames at hf
    split at hf
    · rw [List.mem_singleton.1 hf]
      exact Peer.close R _
    · cases hf
    · cases hf
  · exact Peer.queued c.control h.owes f hf
  · unfold pingFrames at hf
    split at hf
    · rw [List.mem_singleton.1 hf]
      exact Peer.ping R
    · cases hf

theorem Proper.close {c : Connection R} (h : c.Proper) (reason : CloseReason) : (c.close reason).Proper := by
  unfold Connection.close
  split
  · exact h.same rfl rfl
  · exact h

theorem Proper.pollTransmit {c : Connection R} (h : c.Proper) (hintact : c.channels.Intact) (now : Timestamp)
    (out : Packet) : (c.pollTransmit now out).1.Proper := by
  refine ⟨fun channel => ?_, ?_⟩
  · rw [(Channels.recvSide_eq (pollTransmit_recvSide hintact now out)).2.1]
    exact h.started channel
  · rcases pollTransmit_cases hintact now out with ⟨-, heq⟩ | ⟨-, hbuilds⟩
    · rw [heq]
      exact h.owes
    · generalize c.pollTransmit now out = r at hbuilds
      cases hbuilds with
      | aborted => exact Peer.none
      | built =>
        rw [transmitted, (noticeSent_same _).2.2.2.2.2.2.2.1]
        exact Peer.none

variable [LawfulRole R]

theorem Proper.readControl {c c' : Connection R} {now : Timestamp} {r r' : BitReader} (h : c.Proper)
    (hread : (c.readControl now).run r = .ok c' r') : c'.Proper := by
  obtain ⟨kind, r₁, -, hread⟩ := run_bind_ok hread
  have hrole : ∀ {kind : ControlKind}, (Role.readControl c now kind).run r₁ = .ok c' r' → c'.Proper := fun hread =>
    ⟨by rw [(LawfulRole.readControl hread).channels_eq]; exact h.started, Peer.readControl hread h.owes⟩
  cases kind with
  | ping =>
    cases hread
    exact h
  | close =>
    obtain ⟨reason, r₂, -, hread⟩ := run_bind_ok hread
    cases hread
    exact h.same rfl rfl
  | _ => exact hrole hread

theorem Proper.readFrames (now : Timestamp) (fuel : Nat) {c : Connection R} (h : c.Proper) (r : BitReader)
    (eliciting : Bool) : (Connection.readFrames now fuel c r eliciting).1.Proper := by
  induction fuel generalizing c r eliciting with
  | zero => exact h
  | succ fuel ih =>
    rw [Connection.readFrames]
    split
    · exact h
    · split
      · exact h
      · exact h
      · split
        · exact h
        next c' _ hread => exact ih (h.readControl hread) _ _
      · split
        · exact h
        next v _ hread =>
          obtain ⟨channel, kind, id, payload, rfl⟩ := Channels.readMessage_ok hread
          exact ih (c := { c with channels := (c.channels.dispatch channel kind id payload).1 })
            ⟨h.started.dispatch channel kind id payload, h.owes⟩ _ _
      · exact h

theorem Proper.received {c : Connection R} (h : c.Proper) (now : Timestamp) (sender : SocketAddr) (opened : Decrypted)
    (eliciting : Bool) : (c.received now sender opened eliciting).Proper := by
  refine received_rule h (h.same rfl rfl) (fun {c'} h => ⟨?_, Peer.onAddressChange c' now sender _ h.owes⟩) eliciting
  rw [(LawfulRole.onAddressChange ..).channels_eq]
  exact h.started

theorem Proper.handleDatagram {c : Connection R} (h : c.Proper) (now : Timestamp) (sender : SocketAddr)
    (datagram : List UInt8) : (c.handleDatagram now sender datagram).1.Proper := by
  unfold Connection.handleDatagram
  split
  · exact h
  · split
    · exact h
    next crypto opened _ =>
      have hacked : ({ c with crypto, lastReceived := now }.handleAck now opened.header).Proper := by
        unfold handleAck
        split
        · exact h.same rfl rfl
        · exact h.same (ledger_recvSide _ _) rfl
      have hread := hacked.readFrames now (8 * opened.body.length + 1) (.new opened.body) false
      unfold handleOpened
      dsimp only
      split
      · exact Proper.close hread _
      · exact Proper.received hread now sender opened _

theorem Proper.handleTimeout {c : Connection R} (h : c.Proper) (now : Timestamp) : (c.handleTimeout now).Proper := by
  unfold Connection.handleTimeout
  split
  · exact h
  · split
    · exact h.same rfl rfl
    · have hroled : ∀ c : Connection R, c.Proper → (Role.onTimeout c now).Proper := fun c h =>
        ⟨by rw [(LawfulRole.onTimeout c now).channels_eq]; exact h.started, Peer.onTimeout c now h.owes⟩
      refine hroled _ ?_
      split <;> exact h.same (ledger_recvSide _ _) rfl

/-- Every connection is proper, in every run. -/
theorem reach_proper {ok : Connection R → Call R → Prop} {c : Connection R} (h : Lts.Reach (sys R) ok c) :
    c.Proper := by
  refine Lts.Reach.invariant (P := fun c => c.Proper) ?_ ?_ h
  · rintro _ ⟨now, id, addr, tx, rx, set, transport, owed, role, hfresh, rfl⟩
    exact ⟨Channels.new_started set, Peer.fresh hfresh⟩
  · rintro c call _ hreach hc - rfl
    cases call with
    | send channel payload => exact hc.same (Channels.send_recvSide ..) rfl
    | pollTransmit now out => exact hc.pollTransmit (reach_intact hreach) now out
    | handleDatagram now sender datagram => exact hc.handleDatagram now sender datagram
    | handleTimeout now => exact hc.handleTimeout now
    | close reason => exact hc.close reason
    | pollEvent => exact hc.same rfl rfl
    | own op =>
      exact ⟨by rw [show (c.after (.own op)).channels = c.channels from (OwnOps.touched op c).channels_eq]; exact hc.started,
        Peer.own op c hc.owes⟩

end

end Connection

end HexNet
