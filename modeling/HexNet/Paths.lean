/-
Path validation (`connection.rs`): a server, its client at one address, and a
network that drops, delays, duplicates and reorders, and may present any
genuine datagram of the client's from any address.

The server follows an echo of its pending probe's token, whatever address the
echo comes from, and the challenge rides in ordinary packets, which go to the
primary address as well as to the probed one. So the client at the primary
address can answer for an address nobody received at (`migrates_unreceived`).
What an echo does prove is that the client has read the token:
`migrates_only_heard`.
-/
import HexNet.Agreement
import HexNet.Endpoint

namespace HexNet

open Connection (OwnOps LawfulRole)

/-- The token a frame asks to be echoed. -/
def Frame.challenge : Frame → Option (BitVec 64)
  | .control (.pathChallenge token) => some token
  | _ => none

namespace Connection

variable {R : Type}

/-! ## What a call does to the path -/

/-- Where the connection's packets go, and what it owes, are as they were. -/
structure Unmoved (c c' : Connection R) : Prop where
  addr_eq : c'.addr = c.addr
  role_eq : c'.role = c.role
  control_eq : c'.control = c.control

theorem Unmoved.trans {c₁ c₂ c₃ : Connection R} (h₁ : c₁.Unmoved c₂) (h₂ : c₂.Unmoved c₃) : c₁.Unmoved c₃ :=
  ⟨h₂.addr_eq.trans h₁.addr_eq, h₂.role_eq.trans h₁.role_eq, h₂.control_eq.trans h₁.control_eq⟩

theorem noticeSent_unmoved (c : Connection R) : c.Unmoved c.noticeSent := by
  unfold noticeSent
  split
  · split <;> exact ⟨rfl, rfl, rfl⟩
  · exact ⟨rfl, rfl, rfl⟩
  · exact ⟨rfl, rfl, rfl⟩

theorem close_unmoved (c : Connection R) (reason : CloseReason) : c.Unmoved (c.close reason) := by
  unfold close
  split <;> exact ⟨rfl, rfl, rfl⟩

theorem handleAck_unmoved (c : Connection R) (now : Timestamp) (header : Header) :
    c.Unmoved (c.handleAck now header) := by
  unfold handleAck
  split <;> exact ⟨rfl, rfl, rfl⟩

theorem ledger_unmoved (c : Connection R)
    (r : Ack.Delivery PacketRecord ledgerSlots × List (Ack.Notice PacketRecord)) : c.Unmoved (c.ledger r) :=
  ⟨rfl, rfl, rfl⟩

theorem transmitted_unmoved (c : Connection R) (now : Timestamp) (crypto : PacketCrypto) (staged : PacketMessages)
    (len : Nat) (eliciting : Bool) : c.Unmoved (c.transmitted now crypto staged len eliciting) := by
  have hcommitted : c.Unmoved (c.committed now crypto staged eliciting) := by
    have hledger := ledger_unmoved { c with crypto, channels := (c.channels.onPacketSent staged).1 }
      (c.delivery.onSent now c.crypto.nextSequence
        (if eliciting then .eliciting (c.channels.onPacketSent staged).2 else .ackOnly))
    exact ⟨hledger.addr_eq, hledger.role_eq, hledger.control_eq⟩
  rw [transmitted]
  generalize c.committed now crypto staged eliciting = sent at hcommitted
  have hsent : sent.Unmoved
      { sent with budget := sent.budget.onSent len eliciting, acks := sent.acks.sent now eliciting } := ⟨rfl, rfl, rfl⟩
  exact (hcommitted.trans hsent).trans (noticeSent_unmoved _)

theorem filledWith_path (c : Connection R) (now : Timestamp) (filled : Channels) :
    ((c.assessed now).filledWith now filled).addr = c.addr ∧ ((c.assessed now).filledWith now filled).role = c.role ∧
      ((c.assessed now).filledWith now filled).control = c.control.drained := by
  unfold filledWith controlled prepared assessed
  exact ⟨rfl, rfl, rfl⟩

/-- A poll moves nothing, and what is owed goes out with the packet. -/
theorem pollTransmit_path {c : Connection R} (h : c.channels.Intact) (now : Timestamp) (out : Packet) :
    (c.pollTransmit now out).1.addr = c.addr ∧ (c.pollTransmit now out).1.role = c.role ∧
      ((c.pollTransmit now out).1.control = c.control ∨ (c.pollTransmit now out).1.control = c.control.drained) := by
  rcases pollTransmit_cases h now out with ⟨-, heq⟩ | ⟨-, hbuilds⟩
  · rw [heq]
    exact ⟨rfl, rfl, .inl rfl⟩
  · generalize c.pollTransmit now out = r at hbuilds
    cases hbuilds with
    | aborted =>
      obtain ⟨haddr, hrole, hcontrol⟩ := filledWith_path c now _
      exact ⟨haddr, hrole, .inr hcontrol⟩
    | built =>
      obtain ⟨haddr, hrole, hcontrol⟩ := filledWith_path c now _
      exact ⟨(transmitted_unmoved ..).addr_eq.trans haddr, (transmitted_unmoved ..).role_eq.trans hrole,
        .inr ((transmitted_unmoved ..).control_eq.trans hcontrol)⟩

variable [Role R] [FrameReader R]

/-- The frames a connection reads of a datagram. -/
def framesIn (c : Connection R) (now : Timestamp) (datagram : List UInt8) : List Frame :=
  if c.lifecycle = .closed then []
  else
    match c.crypto.decrypt datagram with
    | .error _ => []
    | .ok (crypto, opened) =>
      ({ c with crypto, lastReceived := now }.handleAck now opened.header).bodySeen now opened.body

/-- What a datagram does to the path is what its frames do, and what follows
where they all parsed. -/
theorem handleDatagram_path (c : Connection R) (now : Timestamp) (sender : SocketAddr) (datagram : List UInt8) :
    (c.handleDatagram now sender datagram).1 = c ∨ ∃ (begun : Connection R) (opened : Decrypted) (eliciting : Bool),
      c.Unmoved begun ∧
        ((c.handleDatagram now sender datagram).1 =
            (handleFrames now (c.framesIn now datagram) begun).1.close .protocolViolation ∨
          (c.handleDatagram now sender datagram).1 =
            (handleFrames now (c.framesIn now datagram) begun).1.received now sender opened eliciting) := by
  unfold handleDatagram framesIn
  split
  · exact .inl rfl
  · cases hopen : c.crypto.decrypt datagram with
    | error e => exact .inl rfl
    | ok v =>
      obtain ⟨crypto, opened⟩ := v
      obtain ⟨haddr, hrole, hcontrol⟩ := handleAck_unmoved { c with crypto, lastReceived := now } now opened.header
      dsimp only
      unfold handleOpened
      generalize { c with crypto, lastReceived := now }.handleAck now opened.header = begun at haddr hrole hcontrol ⊢
      have hread : (begun.readBody now opened.body).1 =
          (handleFrames now (begun.bodySeen now opened.body) begun).1 := by
        rw [readBody, readFrames_seen, bodySeen]
      refine .inr ⟨begun, opened, ((begun.readBody now opened.body).2.2.toOption).getD false,
        ⟨haddr, hrole, hcontrol⟩, ?_⟩
      rw [← hread]
      dsimp only
      cases (begun.readBody now opened.body).2.2 with
      | error e => exact .inl rfl
      | ok eliciting => exact .inr rfl

/-! ### A server's address -/

/-- Where a server's packets go after it read `fs`: where they went, or to the
address it was probing, the token of which came back. -/
inductive Moves (fs : List Frame) (c c' : Connection Server) : Prop
  | stayed : c'.addr = c.addr → c'.role = c.role → Moves fs c c'
  | moved (pending : Probe) : c.role.probe = some pending → .control (.pathResponse pending.token) ∈ fs →
    c'.addr = pending.addr → c'.role.probe = none → Moves fs c c'

theorem handleFrame_moves (c : Connection Server) (now : Timestamp) (f : Frame) :
    Moves [f] c (c.handleFrame now f).1 := by
  cases f with
  | message f => exact .stayed rfl rfl
  | control f =>
    cases f with
    | pathResponse token =>
      show Moves _ c (Server.pathResponse c now token)
      unfold Server.pathResponse
      split
      · exact .stayed rfl rfl
      next pending hprobe =>
        split
        next htoken =>
          subst htoken
          exact .moved pending hprobe (List.mem_singleton.2 rfl) rfl rfl
        · exact .stayed rfl rfl
    | _ => exact .stayed rfl rfl

theorem handleFrames_moves (now : Timestamp) (fs : List Frame) (c : Connection Server) :
    Moves fs c (handleFrames now fs c).1 := by
  induction fs generalizing c with
  | nil => exact .stayed rfl rfl
  | cons f fs ih =>
    rw [handleFrames]
    -- an address moved to leaves no probe to answer
    cases handleFrame_moves c now f with
    | stayed haddr hrole =>
      cases ih (c.handleFrame now f).1 with
      | stayed haddr' hrole' => exact .stayed (haddr'.trans haddr) (hrole'.trans hrole)
      | moved pending hprobe hecho haddr' hnone =>
        exact .moved pending (by rw [← hrole, hprobe]) (List.mem_cons_of_mem f hecho) haddr' hnone
    | moved pending hprobe hecho haddr hnone =>
      obtain rfl := List.mem_singleton.1 hecho
      cases ih (c.handleFrame now (.control (.pathResponse pending.token))).1 with
      | stayed haddr' hrole' =>
        exact .moved pending hprobe List.mem_cons_self (haddr'.trans haddr) (by rw [hrole', hnone])
      | moved other hother => exact (Option.some_ne_none other (hother.symm.trans hnone)).elim

theorem received_addr (c : Connection Server) (now : Timestamp) (sender : SocketAddr) (opened : Decrypted)
    (eliciting : Bool) : (c.received now sender opened eliciting).addr = c.addr := by
  refine received_rule (P := (·.addr = c.addr)) rfl rfl (fun h => Eq.trans ?_ h) eliciting
  show (Server.onAddressChange ..).addr = _
  unfold Server.onAddressChange
  split <;> rfl

theorem handleTimeout_addr (c : Connection Server) (now : Timestamp) : (c.handleTimeout now).addr = c.addr := by
  have htimed : ∀ c : Connection Server, (Role.onTimeout c now).addr = c.addr := by
    intro c
    show (Server.onTimeout c now).addr = c.addr
    unfold Server.onTimeout
    split <;> rfl
  unfold handleTimeout
  split
  · rfl
  · split
    · rfl
    · refine (htimed _).trans ?_
      split <;> rfl

/-- A server's address changes only to the one it was probing, as it reads the
probe's token. -/
theorem after_addr {c : Connection Server} (h : c.channels.Intact) (call : Call Server) :
    (c.after call).addr = c.addr ∨ ∃ now sender datagram pending, call = .handleDatagram now sender datagram ∧
      c.role.probe = some pending ∧ .control (.pathResponse pending.token) ∈ c.framesIn now datagram ∧
      (c.after call).addr = pending.addr := by
  cases call with
  | send channel payload => exact .inl rfl
  | pollTransmit now out => exact .inl (pollTransmit_path h now out).1
  | handleTimeout now => exact .inl (handleTimeout_addr c now)
  | close reason => exact .inl (close_unmoved c reason).addr_eq
  | pollEvent => exact .inl rfl
  | own op => cases op <;> exact .inl rfl
  | handleDatagram now sender datagram =>
    rw [show c.after (.handleDatagram now sender datagram) = (c.handleDatagram now sender datagram).1 from rfl]
    rcases handleDatagram_path c now sender datagram with heq | ⟨begun, opened, eliciting, hbegun, hend⟩
    · rw [heq]
      exact .inl rfl
    · have haddr : (c.handleDatagram now sender datagram).1.addr =
          (handleFrames now (c.framesIn now datagram) begun).1.addr := by
        rcases hend with heq | heq
        · rw [heq]
          exact (close_unmoved _ _).addr_eq
        · rw [heq]
          exact received_addr _ now sender opened eliciting
      rw [haddr]
      cases handleFrames_moves now (c.framesIn now datagram) begun with
      | stayed hstayed => exact .inl (hstayed.trans hbegun.addr_eq)
      | moved pending hprobe hecho hmoved =>
        rw [hbegun.role_eq] at hprobe
        exact .inr ⟨now, sender, datagram, pending, rfl, hprobe, hecho, hmoved⟩

/-! ### A client's echo -/

/-- An echo of `token` is waiting for a packet. -/
def OwesEcho (c : Connection R) (token : BitVec 64) : Prop :=
  c.control.owed.pathResponse = true ∧ c.control.pathResponse = token

omit [Role R] [FrameReader R] in
theorem owesEcho_of_mem {c : Connection R} {token : BitVec 64} (h : .pathResponse token ∈ c.controlFrames) :
    c.OwesEcho token := by
  have hclose : .pathResponse token ∉ c.closeFrames := by
    unfold closeFrames
    split <;> simp
  have hping : .pathResponse token ∉ c.pingFrames := by
    unfold pingFrames
    split <;> simp
  simp only [controlFrames, List.mem_append, hclose, hping, false_or, or_false] at h
  simp only [ControlQueue.frames, ControlQueue.owing, List.mem_append, List.mem_ite_nil_right, List.mem_singleton,
    reduceCtorEq, and_false, false_or, or_false, ControlFrame.pathResponse.injEq] at h
  exact ⟨h.1, h.2.symm⟩

/-- The tokens a client reads in a call. -/
def challengesIn (c : Connection Client) : Call Client → List (BitVec 64)
  | .handleDatagram now _ datagram => (c.framesIn now datagram).filterMap Frame.challenge
  | _ => []

theorem handleFrames_owesEcho (now : Timestamp) (fs : List Frame) {c : Connection Client} {token : BitVec 64}
    (h : (handleFrames now fs c).1.OwesEcho token) : c.OwesEcho token ∨ token ∈ fs.filterMap Frame.challenge := by
  induction fs generalizing c with
  | nil => exact .inl h
  | cons f fs ih =>
    rw [handleFrames] at h
    rcases ih h with hfirst | hrest
    · cases f with
      | message f => exact .inl hfirst
      | control f =>
        cases f with
        | pathChallenge asked =>
          obtain ⟨-, rfl⟩ := hfirst
          exact .inr List.mem_cons_self
        | _ => exact .inl hfirst
    · refine .inr ?_
      rw [List.filterMap_cons]
      split
      · exact hrest
      · exact List.mem_cons_of_mem _ hrest

theorem received_control (c : Connection Client) (now : Timestamp) (sender : SocketAddr) (opened : Decrypted)
    (eliciting : Bool) : (c.received now sender opened eliciting).control = c.control :=
  received_rule (P := (·.control = c.control)) rfl rfl (fun h => h) eliciting

theorem handleTimeout_control (c : Connection Client) (now : Timestamp) :
    (c.handleTimeout now).control = c.control := by
  unfold handleTimeout
  split
  · rfl
  · split
    · rfl
    · show (if _ then _ else _ : Connection Client).control = c.control
      split <;> rfl

/-- A client owes the echo of a token it has read. -/
theorem after_owesEcho {c : Connection Client} (h : c.channels.Intact) (call : Call Client) {token : BitVec 64}
    (howes : (c.after call).OwesEcho token) : c.OwesEcho token ∨ token ∈ c.challengesIn call := by
  have hsame : ∀ {c' : Connection Client}, c'.OwesEcho token → c'.control = c.control → c.OwesEcho token :=
    fun howes heq => by rw [OwesEcho, heq] at howes; exact howes
  cases call with
  | send channel payload => exact .inl (hsame howes rfl)
  | pollTransmit now out =>
    rcases (pollTransmit_path h now out).2.2 with heq | heq
    · exact .inl (hsame howes heq)
    · have hnone : (c.after (.pollTransmit now out)).control.owed.pathResponse = false := by
        show (c.pollTransmit now out).1.control.owed.pathResponse = false
        rw [heq]
        rfl
      exact (Bool.false_ne_true (hnone.symm.trans howes.1)).elim
  | handleTimeout now => exact .inl (hsame howes (handleTimeout_control c now))
  | close reason => exact .inl (hsame howes (close_unmoved c reason).control_eq)
  | pollEvent => exact .inl (hsame howes rfl)
  | own op =>
    refine .inl (hsame howes ?_)
    show c.takeResumeTicket.1.control = c.control
    unfold takeResumeTicket
    split <;> rfl
  | handleDatagram now sender datagram =>
    have howes : (c.handleDatagram now sender datagram).1.OwesEcho token := howes
    rcases handleDatagram_path c now sender datagram with heq | ⟨begun, opened, eliciting, hbegun, hend⟩
    · rw [heq] at howes
      exact .inl howes
    · have hcontrol : (c.handleDatagram now sender datagram).1.control =
          (handleFrames now (c.framesIn now datagram) begun).1.control := by
        rcases hend with heq | heq
        · rw [heq]
          exact (close_unmoved _ _).control_eq
        · rw [heq]
          exact received_control _ now sender opened eliciting
      rw [OwesEcho, hcontrol] at howes
      rcases handleFrames_owesEcho now (c.framesIn now datagram) howes with hbefore | hread
      · exact .inl (hsame hbefore hbegun.control_eq)
      · exact .inr hread

/-! ### The body -/

/-- What is read of a datagram is read of the body it opens to. -/
theorem framesIn_opened {c : Connection R} {now : Timestamp} {datagram : List UInt8} {f : Frame}
    (h : f ∈ c.framesIn now datagram) :
    ∃ crypto opened, c.crypto.decrypt datagram = .ok (crypto, opened) ∧
      ∃ begun : Connection R, begun.channels.set = c.channels.set ∧ f ∈ begun.bodySeen now opened.body := by
  unfold framesIn at h
  split at h
  · cases h
  · split at h
    · cases h
    next crypto opened hopen =>
      refine ⟨crypto, opened, hopen, _, ?_, h⟩
      unfold handleAck
      split
      · rfl
      · exact (ledger_settles { c with crypto, lastReceived := now } _).1.set_eq

end Connection

/-! ## A server, its client, and the network between them -/

/-- Whether a packet goes to `addr`. -/
def Destinations.reaches (d : Destinations) (addr : SocketAddr) : Bool := d.primary = addr ∨ d.probe = some addr

/-- The two ends, with what the network may deliver and what the results are
stated over. -/
structure Path where
  server : Connection Server
  client : Connection Client
  /-- Every datagram the client sent, with the body it sealed. -/
  up : List (List UInt8 × List UInt8)
  /-- Every datagram the server sent to the client's address. -/
  down : List (List UInt8)
  /-- Every probe there was: an address, and the token to come back from it. -/
  issued : List (SocketAddr × BitVec 64)
  /-- Every token the client has read. -/
  heard : List (BitVec 64)

inductive PathOp
  | server (call : Connection.Call Server)
  | client (call : Connection.Call Client)

namespace Path

/-- What a call of the server's sends to the client, which is at `home`: a
packet goes to the primary address and the probed one. -/
def downOf (home : SocketAddr) (c : Connection Server) : Connection.Call Server → List (List UInt8)
  | .pollTransmit now out =>
    let r := c.pollTransmit now out
    if (Destinations.mk r.1.addr r.1.probeAddr).reaches home then r.2.toList else []
  | _ => []

def upOf (c : Connection Client) : Connection.Call Client → List (List UInt8 × List UInt8)
  | .pollTransmit now out => ((c.pollTransmit now out).2.map fun datagram => (datagram, c.bodyBuilt now out)).toList
  | _ => []

/-- The probe that is pending. -/
def probing (c : Connection Server) : List (SocketAddr × BitVec 64) :=
  (c.role.probe.map fun pending => (pending.addr, pending.token)).toList

def after (home : SocketAddr) (s : Path) : PathOp → Path
  | .server call =>
    { s with
      server := s.server.after call
      down := s.down ++ downOf home s.server call
      issued := s.issued ++ probing (s.server.after call) }
  | .client call =>
    { s with
      client := s.client.after call
      up := s.up ++ upOf s.client call
      heard := s.heard ++ s.client.challengesIn call }

/-- A session as the handshake leaves it: each end's cipher for sending is the
other's for receiving, and the server knows the client at `home`. -/
def begun (home : SocketAddr) (now now' : Timestamp) (id : ConnectionId) (session : SessionId) (ticket : TicketId)
    (server : SocketAddr) (toClient toServer : Aead) (set : ChannelSet) (transport transport' : TransportConfig) :
    Path where
  server := .accept now id session ticket home toClient toServer set transport
  client := .connect now' id server toServer toClient set transport'
  up := []
  down := []
  issued := []
  heard := []

def sys (home : SocketAddr) : Lts.Sys Path PathOp where
  start s := ∃ now now' id session ticket server toClient toServer set transport transport',
    s = begun home now now' id session ticket server toClient toServer set transport transport'
  step s op s' := s' = s.after home op

/-- The network: the server is presented datagrams of the client's, from any
address, and what it opens of one is what was sealed in it; the client is
presented what was sent to its address. -/
def Genuine (s : Path) : PathOp → Prop
  | .server (.handleDatagram _ _ datagram) => ∃ sent ∈ s.up, sent.1 = datagram ∧
    (s.server.crypto.decrypt datagram).toOption.all (fun v => v.2.body = sent.2) = true
  | .client (.handleDatagram _ _ datagram) => datagram ∈ s.down
  | _ => True

instance (s : Path) (op : PathOp) : Decidable (s.Genuine op) := by
  cases op with
  | server call => cases call <;> (unfold Genuine; infer_instance)
  | client call => cases call <;> (unfold Genuine; infer_instance)

/-! ## What a run keeps -/

/-- Every echo there is was read by the client before, and the server is where
it began or where a token the client has read was to come from. -/
structure Sound (home : SocketAddr) (s : Path) : Prop where
  server : Lts.Reachable (Connection.sys Server) s.server
  client : Lts.Reachable (Connection.sys Client) s.client
  set_eq : s.server.channels.set = s.client.channels.set
  owed : ∀ token, s.client.OwesEcho token → token ∈ s.heard
  echoed : ∀ sent ∈ s.up, ∀ (peer : Connection Server) (now : Timestamp) (token : BitVec 64),
    peer.channels.set = s.client.channels.set → .control (.pathResponse token) ∈ peer.bodySeen now sent.2 →
    token ∈ s.heard
  probed : ∀ pending, s.server.role.probe = some pending → (pending.addr, pending.token) ∈ s.issued
  addr : s.server.addr = home ∨ ∃ token ∈ s.heard, (s.server.addr, token) ∈ s.issued

theorem Sound.begun (home : SocketAddr) (now now' : Timestamp) (id : ConnectionId) (session : SessionId)
    (ticket : TicketId) (server : SocketAddr) (toClient toServer : Aead) (set : ChannelSet)
    (transport transport' : TransportConfig) :
    (Path.begun home now now' id session ticket server toClient toServer set transport transport').Sound home where
  server := .start ⟨now, id, home, toClient, toServer, set, transport, _, _, ⟨rfl, rfl⟩, rfl⟩
  client := .start ⟨now', id, server, toServer, toClient, set, transport', _, _, ⟨rfl, rfl⟩, rfl⟩
  set_eq := rfl
  owed _ howes := (Bool.false_ne_true howes.1).elim
  echoed _ hsent := nomatch hsent
  probed _ hprobe := nomatch hprobe
  addr := .inl rfl

/-- An echo the server reads is one the client has read the challenge of. -/
theorem Sound.heard {home : SocketAddr} {s : Path} (h : s.Sound home) {now : Timestamp} {sender : SocketAddr}
    {datagram : List UInt8} (hgenuine : s.Genuine (.server (.handleDatagram now sender datagram))) {token : BitVec 64}
    (hecho : .control (.pathResponse token) ∈ s.server.framesIn now datagram) : token ∈ s.heard := by
  obtain ⟨sent, hsent, -, hbody⟩ := hgenuine
  obtain ⟨crypto, opened, hopen, peer, hset, hseen⟩ := Connection.framesIn_opened hecho
  rw [hopen] at hbody
  have hbody : opened.body = sent.2 := of_decide_eq_true hbody
  rw [hbody] at hseen
  exact h.echoed sent hsent peer now token (hset.trans h.set_eq) hseen

theorem Sound.serverStep {home : SocketAddr} {s : Path} (h : s.Sound home) {call : Connection.Call Server}
    (hgenuine : s.Genuine (.server call)) : (s.after home (.server call)).Sound home := by
  have hintact := Connection.reach_intact h.server
  have hset := Connection.after_set hintact call
  refine ⟨h.server.step trivial rfl, h.client, hset.trans h.set_eq, h.owed, h.echoed, fun pending hprobe => ?_, ?_⟩
  · refine List.mem_append_right _ ?_
    have hprobe : (s.server.after call).role.probe = some pending := hprobe
    rw [probing, hprobe]
    exact List.mem_singleton.2 rfl
  · show (s.server.after call).addr = home ∨ ∃ token ∈ s.heard, ((s.server.after call).addr, token) ∈ s.issued ++ _
    rcases Connection.after_addr hintact call with
      hstayed | ⟨now, sender, datagram, pending, rfl, hprobe, hecho, hmoved⟩
    · rw [hstayed]
      exact h.addr.imp id fun ⟨token, hheard, hissued⟩ => ⟨token, hheard, List.mem_append_left _ hissued⟩
    · rw [hmoved]
      exact .inr ⟨pending.token, h.heard hgenuine hecho, List.mem_append_left _ (h.probed pending hprobe)⟩

theorem Sound.clientStep {home : SocketAddr} {s : Path} (h : s.Sound home) (call : Connection.Call Client) :
    (s.after home (.client call)).Sound home := by
  have hintact := Connection.reach_intact h.client
  have hset := Connection.after_set hintact call
  refine ⟨h.server, h.client.step trivial rfl, h.set_eq.trans hset.symm, fun token howes => ?_,
    fun sent hsent peer now token hafter hseen => ?_, h.probed, ?_⟩
  · rcases Connection.after_owesEcho hintact call howes with hbefore | hread
    · exact List.mem_append_left _ (h.owed token hbefore)
    · exact List.mem_append_right _ hread
  · have hpeer : peer.channels.set = s.client.channels.set := hafter.trans hset
    refine List.mem_append_left _ ?_
    rcases List.mem_append.1 hsent with hsent | hsent
    · exact h.echoed sent hsent peer now token hpeer hseen
    · -- the packet carries the echoes that were owed
      cases call with
      | pollTransmit now' out =>
        obtain ⟨datagram, -, rfl⟩ := Option.map_eq_some_iff.1 (Option.mem_toList.1 hsent)
        exact h.owed token (Connection.owesEcho_of_mem (Connection.bodyBuilt_controls h.client hpeer hseen))
      | _ => cases hsent
  · exact h.addr.imp id fun ⟨token, hheard, hissued⟩ => ⟨token, List.mem_append_left _ hheard, hissued⟩

theorem reach_sound {home : SocketAddr} {s : Path} (h : Lts.Reach (sys home) Genuine s) : s.Sound home := by
  refine Lts.Reach.invariant (P := fun s => s.Sound home) ?_ ?_ h
  · rintro _ ⟨now, now', id, session, ticket, server, toClient, toServer, set, transport, transport', rfl⟩
    exact .begun ..
  · rintro s op _ - hs hgenuine rfl
    cases op with
    | server call => exact hs.serverStep hgenuine
    | client call => exact hs.clientStep call

/-- **An address is followed only where the client read its token**: the
server's packets do not go to an address, other than the client's, none of
whose tokens the client has read. -/
theorem migrates_only_heard {home addr : SocketAddr} {s : Path} (h : Lts.Reach (sys home) Genuine s)
    (hother : addr ≠ home) (hunheard : ∀ token ∈ s.heard, (addr, token) ∉ s.issued) : s.server.addr ≠ addr := by
  rintro rfl
  rcases (reach_sound h).addr with hhome | ⟨token, hheard, hissued⟩
  · exact hother hhome
  · exact hunheard token hheard hissued

/-! ## An address nobody receives at -/

/-- The client's address. -/
def home : SocketAddr := .v4 1 1

/-- An address a datagram of the client's is presented from. -/
def away : SocketAddr := .v4 2 2

/-- A session between the two. -/
def session : Path :=
  begun home .zero .zero 0 0 ⟨List.replicate nonceLen 0, TicketId.length_zeros⟩ (.v4 0 0) .clear .clear
    Connection.twoKinds .default
    .default

theorem session_reach : Lts.Reach (sys home) Genuine session :=
  .start ⟨.zero, .zero, 0, 0, _, _, _, _, _, _, _, rfl⟩

/-- The client sends a message. -/
def sending : List PathOp := [.client (.send 0 [1]), .client (.pollTransmit .zero Connection.blank)]

/-- The last datagram each end has sent, after `ops`. -/
def lastUp (ops : List PathOp) : List UInt8 :=
  (((ops.foldl (after home) session).up.getLast?).map Prod.fst).getD []

def lastDown (ops : List PathOp) : List UInt8 := ((ops.foldl (after home) session).down.getLast?).getD []

/-- It is presented from elsewhere, and the server asks there. -/
def presented : List PathOp :=
  sending ++ [.server (.handleDatagram .zero away (lastUp sending)), .server (.pollTransmit .zero Connection.blank)]

/-- The client reads the challenge where it is, and echoes it. -/
def echoing : List PathOp :=
  presented ++ [.client (.handleDatagram .zero (.v4 0 0) (lastDown presented)),
    .client (.pollTransmit .zero Connection.blank)]

/-- The echo reaches the server from the client's own address. -/
def followed : List PathOp := echoing ++ [.server (.handleDatagram .zero home (lastUp echoing))]

set_option maxRecDepth 10000 in
/-- A probe nobody has read the challenge of moves nothing. -/
theorem migrates_only_heard_presented :
    ∃ s, Lts.Reach (sys home) Genuine s ∧ s.server.probeAddr = some away ∧ s.server.addr ≠ away := by
  obtain ⟨s, hreach, hprobe, hheard⟩ := Lts.Reach.evaluates (M := sys home)
    (fun _ _ _ hs => (Option.some.inj hs).symm) session_reach presented
    (fun s => s.server.probeAddr = some away ∧ s.heard = []) (by decide +kernel)
  exact ⟨s, hreach, hprobe, migrates_only_heard hreach (by decide) (by rw [hheard]; nofun)⟩

set_option maxRecDepth 10000 in
/-- **A server follows an address nobody received at**: its packet goes to the
client's own address too, the client echoes the token from there, and the
server's packets go to the address the client's datagram was presented from. -/
theorem migrates_unreceived :
    ∃ s, Lts.Reach (sys home) Genuine s ∧ away ≠ home ∧ s.server.addr = away := by
  obtain ⟨s, hreach, haddr⟩ := Lts.Reach.evaluates (M := sys home)
    (fun _ _ _ hs => (Option.some.inj hs).symm) session_reach followed (fun s => s.server.addr = away)
    (by decide +kernel)
  exact ⟨s, hreach, by decide, haddr⟩

end Path
end HexNet
