/-
The client's side (`connector.rs`): one handshake, then one connection.

The connector learns that its connection has closed from the connection's
events, and only `on_payload` and `handle_timeout` take them. A connection
that closes anywhere else, or whose event is pushed out of the queue before it
is taken, leaves a connector that is still `Connected` and, since a closed
connection has no deadline, is never called again (`closed_unseen`). Where the
event is always taken, a connector that has not ended has a deadline
(`deadline_until_ended`).
-/
import HexNet.Reading
import HexNet.Routing

namespace HexNet

/-- Handshake steps are resent on this interval until answered. -/
def retryInterval : Span := Span.fromMillis 250

/-- Gives up after this long. -/
def handshakeTimeout : Span := Span.fromSecs 5

inductive ConnectError
  /-- The server never answered. -/
  | timedOut
  deriving DecidableEq

/-- A challenge as the client keeps it: the cookie to echo, and the server's
nonce, which the keys are derived from once the server accepts. -/
structure Challenge where
  cookie : FixedVec UInt8 maxBlob
  serverNonce : ServerNonce

inductive Connector.State
  /-- Sent a ticket; waiting for a challenge. -/
  | requesting
  /-- Echoing a cookie; waiting for the first payload packet. -/
  | responding
  | connected
  | failed (error : ConnectError)
  | closed (reason : CloseReason)
  deriving DecidableEq

/-- A client has one socket and one peer, so it owns a single connection. -/
structure Connector where
  server : SocketAddr
  state : Connector.State
  /-- The encrypted ticket being presented, kept so it can be resent. -/
  ticket : EncryptedTicket
  /-- The challenge whose cookie is echoed until the server accepts it. -/
  challenge : Option Challenge
  /-- Drawn once for this attempt and sent with every request. -/
  nonce : ClientNonce
  keys : Keys
  channels : ChannelSet
  transport : TransportConfig
  started : Timestamp
  lastAttempt : Option Timestamp
  connection : Option (Connection Client)

namespace Connector

/-- What the caller should do next. -/
inductive Action
  | done
  /-- Send `out` to the server. -/
  | send (out : List UInt8)
  /-- The handshake completed. -/
  | connected
  /-- The attempt or the connection ended. -/
  | ended
  deriving DecidableEq

/-- `nonce` is what was drawn for the attempt. -/
def connect (now : Timestamp) (server : SocketAddr) (ticket : EncryptedTicket) (keys : Keys) (channels : ChannelSet)
    (transport : TransportConfig) (nonce : ClientNonce) : Connector where
  server
  state := .requesting
  ticket
  challenge := none
  nonce
  keys
  channels
  transport
  started := now
  lastAttempt := none
  connection := none

/-- The current handshake step. -/
def writeHandshake (k : Connector) : Option (List UInt8) :=
  match k.state with
  | .requesting => encodeRequest k.ticket.items k.nonce
  | .responding => k.challenge.bind fun challenge => encodeHandshake .response challenge.cookie.items
  | .connected | .failed _ | .closed _ => none

/-! ## Datagrams -/

/-- A challenge's cookie and nonce. -/
def readChallenge (datagram : List UInt8) : Option Challenge :=
  if datagram.length < handshakeLen then none
  else
    match (handshakeBlob datagram).bind FixedVec.fromSlice, challengeNonce datagram with
    | some cookie, some serverNonce => some ⟨cookie, serverNonce⟩
    | _, _ => none

def onChallenge (k : Connector) (now : Timestamp) (datagram : List UInt8) : Connector × Action :=
  match readChallenge datagram with
  | none => (k, .done)
  | some challenge =>
    let k := { k with challenge := some challenge, state := .responding, lastAttempt := some now }
    (k, k.writeHandshake.elim .done .send)

section

variable (suite : Suite)

/-- The keys the connector derives for the connection `id`. -/
def keysFor (k : Connector) (id : ConnectionId) (challenge : Challenge) : ConnectionKeys :=
  k.keys.forConnection suite id k.nonce challenge.serverNonce

/-- The connection an acceptance is tried on. -/
def candidate (k : Connector) (now : Timestamp) (id : ConnectionId) (challenge : Challenge) : Connection Client :=
  let keys := (k.keysFor suite id challenge).keys
  .connect now id k.server (suite keys.clientToServer) (suite keys.serverToClient) k.channels k.transport

/-- The server assigns the connection id, so it is learned from the first
packet it sends. A packet that does not authenticate leaves the cookie
retrying. -/
def onAccepted (k : Connector) (now : Timestamp) (datagram : List UInt8) : Connector × Action × List Message :=
  match Header.decode datagram, k.challenge with
  | .ok (header, _), some challenge =>
    let r := (k.candidate suite now header.connId challenge).handleDatagram now k.server datagram
    match r.2.2 with
    | .ok () => ({ k with connection := some r.1, state := .connected }, .connected, r.2.1)
    | .error _ => (k, .done, r.2.1)
  | _, _ => (k, .done, [])

end

/-- Takes the connection's events, the last closure among which ends the
connector. -/
def drainConnectionEvents (k : Connector) : Connector × Action :=
  match k.connection with
  | none => (k, .done)
  | some conn =>
    let k := { k with connection := some { conn with events := .empty } }
    match Endpoint.lastClosed conn.events.items with
    | some reason => ({ k with state := .closed reason }, .ended)
    | none => (k, .done)

def onPayload (k : Connector) (now : Timestamp) (datagram : List UInt8) : Connector × Action × List Message :=
  match k.connection with
  | none => (k, .done, [])
  | some conn =>
    let r := conn.handleDatagram now k.server datagram
    let k := { k with connection := some r.1 }
    match r.2.2 with
    | .ok () | .error .badPayload =>
      let drained := k.drainConnectionEvents
      (drained.1, drained.2, r.2.1)
    | .error _ => (k, .done, r.2.1)

/-- Processes one datagram from the server: the messages it delivered. -/
def handleDatagram (suite : Suite) (k : Connector) (now : Timestamp) (sender : SocketAddr) (datagram : List UInt8) :
    Connector × Action × List Message :=
  if sender ≠ k.server then (k, .done, [])
  else
    match k.state, datagram.head?.bind PacketKind.fromByte with
    | .requesting, some .challenge =>
      let r := k.onChallenge now datagram
      (r.1, r.2, [])
    | .responding, some .payload => k.onAccepted suite now datagram
    | .connected, some .payload => k.onPayload now datagram
    | _, _ => (k, .done, [])

/-! ## Transmitting and timers -/

/-- Whether a handshake step was sent too recently to be sent again. -/
def attempted (k : Connector) (now : Timestamp) : Bool := k.lastAttempt.any fun last => now.since last < retryInterval

/-- Produces the next packet: the handshake step again, or the connection's. -/
def pollTransmit (k : Connector) (now : Timestamp) (out : Packet) : Connector × Option (List UInt8) :=
  match k.state with
  | .requesting | .responding =>
    if k.attempted now then (k, none) else ({ k with lastAttempt := some now }, k.writeHandshake)
  | .connected =>
    match k.connection with
    | none => (k, none)
    | some conn =>
      let r := conn.pollTransmit now out
      ({ k with connection := some r.1 }, r.2)
  | .failed _ | .closed _ => (k, none)

def handleTimeout (k : Connector) (now : Timestamp) : Connector × Action :=
  match k.state with
  | .requesting | .responding =>
    if handshakeTimeout ≤ now.since k.started then ({ k with state := .failed .timedOut }, .ended) else (k, .done)
  | .connected => drainConnectionEvents { k with connection := k.connection.map (·.handleTimeout now) }
  | .failed _ | .closed _ => (k, .done)

/-- When the handshake is next resent, or given up. -/
def handshakeAt (k : Connector) : Timestamp :=
  (k.lastAttempt.elim .zero fun last => last.saturatingAdd retryInterval).min
    (k.started.saturatingAdd handshakeTimeout)

def nextTimeout (k : Connector) : Option Timestamp :=
  match k.state with
  | .requesting | .responding => some k.handshakeAt
  | .connected => k.connection.bind (·.nextTimeout)
  | .failed _ | .closed _ => none

/-- Begins an orderly close. -/
def close (k : Connector) : Connector := { k with connection := k.connection.map (·.close .requested) }

/-- The most recent resume ticket the server sent. -/
def takeResumeTicket (k : Connector) : Connector × Option EncryptedTicket :=
  match k.connection with
  | none => (k, none)
  | some conn =>
    let r := conn.takeResumeTicket
    ({ k with connection := some r.1 }, r.2)

/-! ## Runs -/

inductive Call
  | handleDatagram (now : Timestamp) (sender : SocketAddr) (datagram : List UInt8)
  | pollTransmit (now : Timestamp) (out : Packet)
  | handleTimeout (now : Timestamp)
  | close
  /-- The application sends on the connection, where there is one. -/
  | send (channel : Nat) (payload : List UInt8)
  | takeResumeTicket

def after (suite : Suite) (k : Connector) : Call → Connector
  | .handleDatagram now sender datagram => (k.handleDatagram suite now sender datagram).1
  | .pollTransmit now out => (k.pollTransmit now out).1
  | .handleTimeout now => (k.handleTimeout now).1
  | .close => k.close
  | .send channel payload => { k with connection := k.connection.map fun conn => (conn.send channel payload).1 }
  | .takeResumeTicket => k.takeResumeTicket.1

/-- The runs of one connector. -/
def sys (suite : Suite) : Lts.Sys Connector Call where
  start k := ∃ now server ticket keys channels transport nonce,
    k = connect now server ticket keys channels transport nonce
  step k call k' := k' = k.after suite call

/-- What a call does: it goes on with the handshake, fails it, starts the
connection, or hands the connection a call of its own, whose events it takes or
leaves where they are. -/
inductive Does (suite : Suite) (k : Connector) : Call → Connector → Prop
  | kept {call : Call} : Does suite k call k
  | challenged (now : Timestamp) (sender : SocketAddr) (datagram : List UInt8) (challenge : Challenge) :
    k.state = .requesting → datagram.head?.bind PacketKind.fromByte = some .challenge →
    readChallenge datagram = some challenge →
    Does suite k (.handleDatagram now sender datagram)
      { k with challenge := some challenge, state := .responding, lastAttempt := some now }
  | accepted (now : Timestamp) (sender : SocketAddr) (datagram : List UInt8) (header : Header) (len : Nat)
      (challenge : Challenge) :
    k.state = .responding → Header.decode datagram = .ok (header, len) → k.challenge = some challenge →
    sender = k.server →
    ((k.candidate suite now header.connId challenge).handleDatagram now k.server datagram).2.2 = .ok () →
    Does suite k (.handleDatagram now sender datagram)
      { k with
        connection := some ((k.candidate suite now header.connId challenge).handleDatagram now k.server datagram).1
        state := .connected }
  | attempted (now : Timestamp) (out : Packet) : k.state = .requesting ∨ k.state = .responding →
    Does suite k (.pollTransmit now out) { k with lastAttempt := some now }
  | failed (now : Timestamp) : k.state = .requesting ∨ k.state = .responding →
    Does suite k (.handleTimeout now) { k with state := .failed .timedOut }
  | polled (now : Timestamp) (out : Packet) (conn : Connection Client) : k.state = .connected →
    k.connection = some conn →
    Does suite k (.pollTransmit now out) { k with connection := some (conn.pollTransmit now out).1 }
  | read (now : Timestamp) (sender : SocketAddr) (datagram : List UInt8) (conn : Connection Client) :
    k.state = .connected → k.connection = some conn → sender = k.server →
    Does suite k (.handleDatagram now sender datagram)
      { k with connection := some (conn.handleDatagram now k.server datagram).1 }.drainConnectionEvents.1
  | timed (now : Timestamp) (conn : Connection Client) : k.state = .connected → k.connection = some conn →
    Does suite k (.handleTimeout now) { k with connection := some (conn.handleTimeout now) }.drainConnectionEvents.1
  /-- The application's own calls, none of which ends a connection. -/
  | used {call : Call} (conn : Connection Client) (own : Connection.Call Client) : k.connection = some conn →
    ((conn.after own).lifecycle = .closed → conn.lifecycle = .closed) →
    Does suite k call { k with connection := some (conn.after own) }

theorem connection_same {k : Connector} {conn : Connection Client} (h : k.connection = some conn) :
    { k with connection := some conn } = k := by
  rw [← h]

theorem onChallenge_does (suite : Suite) {k : Connector} (now : Timestamp) (sender : SocketAddr)
    {datagram : List UInt8} (hstate : k.state = .requesting)
    (hkind : datagram.head?.bind PacketKind.fromByte = some .challenge) :
    Does suite k (.handleDatagram now sender datagram) (k.onChallenge now datagram).1 := by
  unfold onChallenge
  split
  · exact .kept
  next challenge hread => exact .challenged now sender datagram challenge hstate hkind hread

theorem onAccepted_does (suite : Suite) {k : Connector} (now : Timestamp) (sender : SocketAddr)
    (datagram : List UInt8) (hstate : k.state = .responding) (hsender : sender = k.server) :
    Does suite k (.handleDatagram now sender datagram) (k.onAccepted suite now datagram).1 := by
  unfold onAccepted
  split
  next header len challenge hheader hchallenge =>
    dsimp only
    split
    next hok => exact .accepted now sender datagram header len challenge hstate hheader hchallenge hsender hok
    · exact .kept
  · exact .kept

theorem onPayload_does (suite : Suite) {k : Connector} (now : Timestamp) (sender : SocketAddr)
    (datagram : List UInt8) (hstate : k.state = .connected) (hsender : sender = k.server) :
    Does suite k (.handleDatagram now sender datagram) (k.onPayload now datagram).1 := by
  unfold onPayload
  split
  · exact .kept
  next conn hconn =>
    dsimp only
    split
    · exact .read now sender datagram conn hstate hconn hsender
    · exact .read now sender datagram conn hstate hconn hsender
    next error hbad herror =>
      rw [(Connection.handleDatagram_refused hbad herror).1, connection_same hconn]
      exact .kept

/-- **Everything a call can do.** -/
theorem after_does (suite : Suite) (k : Connector) (call : Call) : Does suite k call (k.after suite call) := by
  cases call with
  | handleDatagram now sender datagram =>
    show Does suite k _ (k.handleDatagram suite now sender datagram).1
    unfold handleDatagram
    split
    · exact .kept
    next hsender =>
      have hsender := not_not.1 hsender
      split
      next hstate hkind => exact onChallenge_does suite now sender hstate hkind
      next hstate _ => exact onAccepted_does suite now sender datagram hstate hsender
      next hstate _ => exact onPayload_does suite now sender datagram hstate hsender
      · exact .kept
  | pollTransmit now out =>
    show Does suite k _ (k.pollTransmit now out).1
    unfold pollTransmit
    split
    next hstate =>
      split
      · exact .kept
      · exact .attempted now out (.inl hstate)
    next hstate =>
      split
      · exact .kept
      · exact .attempted now out (.inr hstate)
    next hstate =>
      split
      · exact .kept
      next conn hconn => exact .polled now out conn hstate hconn
    · exact .kept
    · exact .kept
  | handleTimeout now =>
    show Does suite k _ (k.handleTimeout now).1
    unfold handleTimeout
    split
    next hstate =>
      split
      · exact .failed now (.inl hstate)
      · exact .kept
    next hstate =>
      split
      · exact .failed now (.inr hstate)
      · exact .kept
    next hstate =>
      cases hconn : k.connection with
      | none =>
        rw [Option.map_none, ← hconn]
        show Does suite k _ k.drainConnectionEvents.1
        rw [drainConnectionEvents, hconn]
        exact .kept
      | some conn => exact .timed now conn hstate hconn
    · exact .kept
    · exact .kept
  | close =>
    show Does suite k _ { k with connection := k.connection.map (·.close .requested) }
    cases hconn : k.connection with
    | none =>
      rw [Option.map_none, ← hconn]
      exact .kept
    | some conn =>
      refine .used conn (.close .requested) hconn fun hclosed => ?_
      rw [Connection.after, Connection.close] at hclosed
      split at hclosed
      · cases hclosed
      · exact hclosed
  | send channel payload =>
    show Does suite k _ { k with connection := k.connection.map fun conn => (conn.send channel payload).1 }
    cases hconn : k.connection with
    | none =>
      rw [Option.map_none, ← hconn]
      exact .kept
    | some conn => exact .used conn (.send channel payload) hconn id
  | takeResumeTicket =>
    show Does suite k _ k.takeResumeTicket.1
    unfold takeResumeTicket
    split
    · exact .kept
    next conn hconn =>
      exact .used conn (.own ()) hconn (Connection.OwnOps.touched () conn).lifecycle_eq.symm.trans

end Connector

/-! ## Where a connection closes -/

namespace Frame

def closes : Frame → Bool
  | .control (.close _) => true
  | _ => false

def isTicket : Frame → Bool
  | .control (.resumeTicket _) => true
  | _ => false

/-- Fewer tickets stand behind the last close notice than the queue of events
holds. -/
def Heard (fs : List Frame) : Prop :=
  ∀ before f behind, fs = before ++ f :: behind → f.closes = true → behind.any closes = false →
    behind.countP isTicket < 16

end Frame

namespace Connection

/-- The frames a datagram is read as, and the error that ended the reading, if
one did. -/
def framesOf (c : Connection Client) (now : Timestamp) (datagram : List UInt8) : List Frame × Option ReadError :=
  match c.crypto.decrypt datagram with
  | .error _ => ([], none)
  | .ok (crypto, opened) =>
    seen now (8 * opened.body.length + 1) ({ c with crypto, lastReceived := now }.handleAck now opened.header)
      (.new opened.body)

theorem handleFrames_closed_iff (now : Timestamp) (fs : List Frame) (c : Connection Client) :
    (handleFrames now fs c).1.lifecycle = .closed ↔ c.lifecycle = .closed ∨ fs.any Frame.closes = true := by
  induction fs generalizing c with
  | nil => simp [handleFrames]
  | cons f fs ih =>
    have hone : (c.handleFrame now f).1.lifecycle = .closed ↔ c.lifecycle = .closed ∨ f.closes = true := by
      cases f with
      | message f => simp [handleFrame, Frame.closes]
      | control f => cases f <;> simp [handleFrame, FrameReader.act, Client.act, peerClosed, Frame.closes]
    rw [handleFrames, ih, hone, List.any_cons, Bool.or_eq_true, or_assoc]

/-- Only a ticket's event can push out one that is queued. -/
theorem handleFrames_keeps (now : Timestamp) {fs : List Frame} (hnone : fs.any Frame.closes = false)
    {c : Connection Client} {e : Event} {before behind : List Event} (h : c.events.items = before ++ e :: behind)
    (hroom : behind.length + fs.countP Frame.isTicket < 16) : e ∈ (handleFrames now fs c).1.events.items := by
  induction fs generalizing c before behind with
  | nil =>
    show e ∈ c.events.items
    simp [h]
  | cons f fs ih =>
    rw [List.any_cons, Bool.or_eq_false_iff] at hnone
    by_cases hticket : f.isTicket = true
    · rw [List.countP_cons_of_pos hticket] at hroom
      obtain ⟨before', hitems⟩ := RingQueue.push_behind h (by omega) .resumeTicketReceived
      have hevents : (c.handleFrame now f).1.events = c.events.push .resumeTicketReceived := by
        cases f with
        | message f => cases hticket
        | control f => cases f <;> first | rfl | cases hticket
      refine ih hnone.2 (by rw [hevents]; exact hitems) ?_
      rw [List.length_append, List.length_singleton]
      omega
    · rw [List.countP_cons_of_neg hticket] at hroom
      have hevents : (c.handleFrame now f).1.events = c.events := by
        cases f with
        | message f => rfl
        | control f =>
          cases f with
          | close reason => cases hnone.1
          | resumeTicket ticket => exact absurd rfl hticket
          | _ => rfl
      exact ih hnone.2 (by rw [hevents]; exact h) hroom

/-- A close notice that is heard is among the events. -/
theorem handleFrames_heard (now : Timestamp) {fs : List Frame} (hheard : Frame.Heard fs)
    (hcloses : fs.any Frame.closes = true) (c : Connection Client) :
    ∃ reason, .closed reason ∈ (handleFrames now fs c).1.events.items := by
  -- the last close notice, from the end
  have hsome : (fs.reverse.find? Frame.closes).isSome = true := List.find?_isSome.2 (by simpa using hcloses)
  obtain ⟨f, hfind⟩ := Option.isSome_iff_exists.1 hsome
  obtain ⟨hf, after, before, hsplit, hafter⟩ := List.find?_eq_some_iff_append.1 hfind
  have hfs : fs = before.reverse ++ f :: after.reverse := by
    rw [← List.reverse_reverse fs, hsplit]
    simp
  have hnone : after.reverse.any Frame.closes = false := by simpa using hafter
  have hroom := hheard _ _ _ hfs hf hnone
  cases f with
  | message f => cases hf
  | control f =>
    cases f with
    | close reason =>
      rw [hfs, handleFrames_append]
      obtain ⟨queued, hitems⟩ := RingQueue.push_last (handleFrames now before.reverse c).1.events (.closed reason)
      exact ⟨reason, handleFrames_keeps now hnone (c := (handleFrames now before.reverse c).1.peerClosed reason) hitems
        (by simpa using hroom)⟩
    | _ => cases hf

/-- What a datagram does to a live connection's lifecycle and events is what its
frames do. -/
theorem handleDatagram_acts {c : Connection Client} (hlive : c.lifecycle ≠ .closed) (now : Timestamp)
    (sender : SocketAddr) (datagram : List UInt8) :
    ∃ begun : Connection Client, begun.lifecycle = c.lifecycle ∧
      ((c.handleDatagram now sender datagram).1.lifecycle = .closed ↔
        (handleFrames now (c.framesOf now datagram).1 begun).1.lifecycle = .closed) ∧
      (c.handleDatagram now sender datagram).1.events = (handleFrames now (c.framesOf now datagram).1 begun).1.events ∧
      ((c.handleDatagram now sender datagram).2.2 = .ok () → (c.framesOf now datagram).2 = none) := by
  unfold handleDatagram framesOf
  rw [if_neg hlive]
  cases c.crypto.decrypt datagram with
  | error e => exact ⟨c, rfl, Iff.rfl, rfl, fun _ => rfl⟩
  | ok v =>
    obtain ⟨crypto, opened⟩ := v
    have hacked : ({ c with crypto, lastReceived := now }.handleAck now opened.header).lifecycle = c.lifecycle := by
      unfold handleAck
      split <;> rfl
    refine ⟨_, hacked, ?_⟩
    dsimp only
    unfold handleOpened readBody
    rw [readFrames_seen]
    generalize { c with crypto, lastReceived := now }.handleAck now opened.header = begun
    generalize seen now (8 * opened.body.length + 1) begun (.new opened.body) = frames
    generalize (handleFrames now frames.1 begun).1 = c'
    cases herror : frames.2 with
    | some e =>
      have hclose : (c'.close .protocolViolation).lifecycle = .closed ↔ c'.lifecycle = .closed := by
        unfold close
        split
        next hopen => simp [hopen]
        · rfl
      have hevents : (c'.close .protocolViolation).events = c'.events := by unfold close; split <;> rfl
      simp only [answer, herror]
      exact ⟨hclose, hevents, fun hok => by cases hok⟩
    | none =>
      simp only [answer, herror]
      refine ⟨by rw [received_lifecycle], ?_, fun _ => trivial⟩
      exact received_rule (P := (·.events = c'.events)) rfl rfl (fun h => h) _

/-- A poll ends a connection with the last of its close notices only. -/
theorem pollTransmit_closed {R : Type} {c : Connection R} {now : Timestamp} {out : Packet}
    (hlive : c.lifecycle ≠ .closed) (h : (c.pollTransmit now out).1.lifecycle = .closed) :
    ∃ reason remaining, c.lifecycle = .closing reason remaining ∧ remaining ≤ 1 := by
  have hfill : ∀ allowance headerLen w,
      (((c.assessed now).prepared now).fillPacket allowance headerLen w).1.lifecycle = c.lifecycle := by
    intro allowance headerLen w
    unfold fillPacket writeControl writePing
    dsimp only
    split
    · split <;> rfl
    · rfl
  -- a packet that was sent counts one notice off
  have hsent : c.lifecycle.noticed = .closed := by
    unfold pollTransmit buildPacket sealPacket at h
    dsimp only at h
    split at h
    · split at h
      · dsimp only at h
        rw [hfill] at h
        exact absurd h hlive
      · split at h
        · dsimp only at h
          rw [hfill] at h
          exact absurd h hlive
        · dsimp only at h
          rwa [transmitted_lifecycle, hfill] at h
    · exact absurd h hlive
  cases hlife : c.lifecycle with
  | «open» =>
    rw [hlife] at hsent
    cases hsent
  | closed => exact absurd hlife hlive
  | closing reason remaining =>
    rw [hlife, Lifecycle.noticed] at hsent
    split at hsent
    next hlast => exact ⟨reason, remaining, rfl, hlast⟩
    · cases hsent

end Connection

/-! ## Deadlines -/

/-- Timer work closes a connection only for idleness, which is reported. -/
theorem Connection.handleTimeout_closed {R : Type} [Role R] [LawfulRole R] {c : Connection R}
    (hlive : c.lifecycle ≠ .closed) {now : Timestamp} (h : (c.handleTimeout now).lifecycle = .closed) :
    .closed .timedOut ∈ (c.handleTimeout now).events.items := by
  unfold handleTimeout at h ⊢
  rw [if_neg hlive] at h ⊢
  split at h
  next hidle =>
    rw [if_pos hidle]
    exact RingQueue.mem_push _ _
  · refine absurd ?_ hlive
    rw [← h]
    unfold runTimers
    dsimp only
    show _ = (Role.onTimeout _ now).lifecycle
    rw [(LawfulRole.onTimeout _ now).lifecycle_eq]
    split <;> rfl

namespace Connector

/-- The connection does not close unseen: its last close notice is not polled,
the packet that accepts it has no close notice in it, and one that has is not
filled up with tickets behind it. -/
def Seen (suite : Suite) (k : Connector) : Call → Prop
  | .pollTransmit _ _ => k.state = .connected → ∀ conn, k.connection = some conn →
    ∀ reason remaining, conn.lifecycle = .closing reason remaining → 1 < remaining
  | .handleDatagram now sender datagram => sender = k.server →
    (k.state = .responding → ∀ header len challenge, Header.decode datagram = .ok (header, len) →
      k.challenge = some challenge →
      let frames := (k.candidate suite now header.connId challenge).framesOf now datagram
      frames.2 = none → frames.1.any Frame.closes = false) ∧
    (k.state = .connected → ∀ conn, k.connection = some conn → Frame.Heard (conn.framesOf now datagram).1)
  | .handleTimeout _ | .close | .send _ _ | .takeResumeTicket => True

/-- A connector with a connection is connected, by one that has not closed, or
has seen it close. -/
structure Attentive (k : Connector) : Prop where
  connected : k.state = .connected → k.connection.isSome = true
  closed : ∀ conn, k.connection = some conn →
    k.state = .connected ∧ conn.lifecycle ≠ .closed ∨ ∃ reason, k.state = .closed reason

theorem lastClosed_eq_none {events : List Event} (h : Endpoint.lastClosed events = none) (reason : CloseReason) :
    .closed reason ∉ events := by
  unfold Endpoint.lastClosed at h
  -- by induction on the events, with what was found among those before them
  suffices hgo : ∀ (found : Option CloseReason) (step : Option CloseReason → Event → Option CloseReason),
      (∀ found reason, step found (.closed reason) = some reason) →
      (∀ found event, step found event = none → found = none) →
      events.foldl step found = none → found = none ∧ .closed reason ∉ events by
    refine (hgo none _ (fun _ _ => rfl) (fun found event hnone => ?_) h).2
    cases event with
    | closed reason => cases hnone
    | migrated addr => exact hnone
    | resumeTicketReceived => exact hnone
  clear h
  intro found step hclosed hkeeps
  induction events generalizing found with
  | nil => exact fun hfound => ⟨hfound, List.not_mem_nil⟩
  | cons event events ih =>
    intro hfound
    obtain ⟨hhead, hrest⟩ := ih _ hfound
    refine ⟨hkeeps _ _ hhead, fun hmem => ?_⟩
    rcases List.mem_cons.1 hmem with rfl | hmem
    · rw [hclosed] at hhead
      cases hhead
    · exact hrest hmem

/-- Taking the events of a connection whose closure is among them. -/
theorem Attentive.drained {k : Connector} {conn : Connection Client} (hstate : k.state = .connected)
    (hseen : conn.lifecycle = .closed → ∃ reason, .closed reason ∈ conn.events.items) :
    ({ k with connection := some conn }.drainConnectionEvents.1).Attentive := by
  unfold drainConnectionEvents
  dsimp only
  split
  next reason _ => exact ⟨nofun, fun _ _ => .inr ⟨reason, rfl⟩⟩
  next hnone =>
    refine ⟨fun _ => rfl, fun conn' hconn' => .inl ⟨hstate, fun hclosed => ?_⟩⟩
    obtain rfl := Option.some.inj hconn'
    obtain ⟨reason, hmem⟩ := hseen hclosed
    exact lastClosed_eq_none hnone reason hmem

theorem Attentive.step {suite : Suite} {k k' : Connector} {call : Call} (h : k.Attentive) (hseen : k.Seen suite call)
    (hdoes : Does suite k call k') : k'.Attentive := by
  -- a connector that is not connected, and has not seen a closure, has no connection
  have hnone : k.state ≠ .connected → (∀ reason, k.state ≠ .closed reason) → ∀ conn, k.connection ≠ some conn := by
    intro hconnected hclosed conn hconn
    rcases h.closed conn hconn with ⟨hstate, -⟩ | ⟨reason, hstate⟩
    · exact hconnected hstate
    · exact hclosed reason hstate
  have hlive : ∀ conn, k.connection = some conn → k.state = .connected → conn.lifecycle ≠ .closed := by
    intro conn hconn hstate
    rcases h.closed conn hconn with ⟨-, hlive⟩ | ⟨reason, hclosed⟩
    · exact hlive
    · rw [hstate] at hclosed
      cases hclosed
  cases hdoes with
  | kept => exact h
  | challenged now sender datagram challenge hstate =>
    refine ⟨nofun, fun conn hconn => absurd hconn (hnone ?_ ?_ conn)⟩
    · rw [hstate]; nofun
    · rw [hstate]; exact fun _ => nofun
  | accepted now sender datagram header len challenge hstate hheader hchallenge hsender hok =>
    refine ⟨fun _ => rfl, fun conn hconn => .inl ⟨rfl, fun hclosed => ?_⟩⟩
    obtain rfl := Option.some.inj hconn
    have hfresh : (k.candidate suite now header.connId challenge).lifecycle ≠ .closed := nofun
    obtain ⟨begun, hlife, hframes, -, hread⟩ := Connection.handleDatagram_acts hfresh now k.server datagram
    rw [hframes, Connection.handleFrames_closed_iff, hlife] at hclosed
    rw [(hseen hsender).1 hstate header len challenge hheader hchallenge (hread hok)] at hclosed
    exact hclosed.elim hfresh Bool.false_ne_true
  | attempted now out hstate => exact ⟨h.connected, h.closed⟩
  | failed now hstate =>
    refine ⟨nofun, fun conn hconn => absurd hconn (hnone ?_ ?_ conn)⟩
    all_goals rcases hstate with hstate | hstate <;> rw [hstate]
    · nofun
    · nofun
    · exact fun _ => nofun
    · exact fun _ => nofun
  | polled now out conn hstate hconn =>
    refine ⟨fun _ => rfl, fun conn' hconn' => .inl ⟨hstate, fun hclosed => ?_⟩⟩
    obtain rfl := Option.some.inj hconn'
    obtain ⟨reason, remaining, hclosing, hlast⟩ := Connection.pollTransmit_closed (hlive conn hconn hstate) hclosed
    exact absurd hlast (Nat.not_le.2 (hseen hstate conn hconn reason remaining hclosing))
  | read now sender datagram conn hstate hconn hsender =>
    refine .drained hstate fun hclosed => ?_
    obtain ⟨begun, hlife, hframes, hevents, -⟩ :=
      Connection.handleDatagram_acts (hlive conn hconn hstate) now k.server datagram
    rw [hframes, Connection.handleFrames_closed_iff, hlife] at hclosed
    rw [hevents]
    exact Connection.handleFrames_heard now ((hseen hsender).2 hstate conn hconn)
      (hclosed.resolve_left (hlive conn hconn hstate)) begun
  | timed now conn hstate hconn =>
    exact .drained hstate fun hclosed => ⟨_, Connection.handleTimeout_closed (hlive conn hconn hstate) hclosed⟩
  | used conn own hconn hlife =>
    refine ⟨fun _ => rfl, fun conn' hconn' => ?_⟩
    obtain rfl := Option.some.inj hconn'
    rcases h.closed conn hconn with ⟨hstate, hlive⟩ | hclosed
    · exact .inl ⟨hstate, fun hclosed => hlive (hlife hclosed)⟩
    · exact .inr hclosed

/-- **A connector that has not ended has a deadline**, in every run whose
connection closes only where its closure is seen; and a connector whose
connection has closed has ended. -/
theorem deadline_until_ended (suite : Suite) {k : Connector} (h : Lts.Reach (sys suite) (Seen suite) k) :
    (k.state = .requesting ∨ k.state = .responding ∨ k.state = .connected → k.nextTimeout.isSome = true) ∧
      ∀ conn, k.connection = some conn → conn.lifecycle = .closed → ∃ reason, k.state = .closed reason := by
  have hk : k.Attentive := by
    refine Lts.Reach.invariant (P := Attentive) ?_ ?_ h
    · rintro _ ⟨now, server, ticket, keys, channels, transport, nonce, rfl⟩
      exact ⟨nofun, fun conn hconn => (Option.some_ne_none conn hconn.symm).elim⟩
    · rintro k call _ - hk hseen rfl
      exact hk.step hseen (after_does suite k call)
  refine ⟨?_, fun conn hconn hclosed => ?_⟩
  · rintro (hstate | hstate | hstate)
    · rw [nextTimeout, hstate]; rfl
    · rw [nextTimeout, hstate]; rfl
    · obtain ⟨conn, hconn⟩ := Option.isSome_iff_exists.1 (hk.connected hstate)
      rcases hk.closed conn hconn with ⟨-, hlive⟩ | ⟨reason, hclosed⟩
      · rw [nextTimeout, hstate, hconn]
        show conn.nextTimeout.isSome = true
        rw [Connection.nextTimeout, if_neg hlive]
        obtain ⟨t, ht, -⟩ := Timestamp.earliest_le_left _
        rw [ht]
        rfl
      · rw [hstate] at hclosed
        cases hclosed
  · rcases hk.closed conn hconn with ⟨-, hlive⟩ | hended
    · exact absurd hclosed hlive
    · exact hended

/-! ### A player who leaves, and one turned away -/

open Connection (blank)
open Endpoint (clearSuite backend drawn)

/-- An attempt as it starts. -/
def begun : Connector :=
  connect .zero (.v4 0 0) .empty ⟨backend, backend⟩ orderedOnly .default 5

/-- The server's end of the connection. -/
def host : Connection Server :=
  .accept .zero 0 0 drawn (.v4 1 1) .clear .clear orderedOnly .default

def heard (datagram : List UInt8) : Call := .handleDatagram .zero (.v4 0 0) datagram

/-- A challenge arrives, and the first packet of `host`. -/
def greeting (host : Connection Server) : List Call :=
  [heard ((encodeChallenge [1] 9).getD []), heard ((host.pollTransmit .zero blank).2.getD [])]

def polls : Call := .pollTransmit .zero blank

theorem begun_reachable {ok : Connector → Call → Prop} : Lts.Reach (sys clearSuite) ok begun :=
  .start ⟨_, _, _, _, _, _, _, rfl⟩

theorem reach_calls {calls : List Call} {k : Connector} (h : Lts.Reachable (sys clearSuite) k) :
    Lts.Reachable (sys clearSuite) (calls.foldl (after clearSuite) k) := by
  induction calls generalizing k with
  | nil => exact h
  | cons call calls ih => exact ih (.step h trivial rfl)

/-- The attempt once it is challenged. -/
def challenged : Connector := begun.after clearSuite (heard ((encodeChallenge [1] 9).getD []))

/-- The first packet of the server's end. -/
def acceptance : List UInt8 := (host.pollTransmit .zero blank).2.getD []

/-- The attempt once it is accepted. -/
def admitted : Connector := challenged.after clearSuite (heard acceptance)

theorem acceptance_open : (Header.decode acceptance).toOption.all (fun r => challenged.challenge.all fun challenge =>
    !((challenged.candidate clearSuite .zero r.1.connId challenge).framesOf .zero acceptance).1.any Frame.closes) =
      true := by decide +kernel

theorem acceptance_seen : challenged.Seen clearSuite (heard acceptance) := by
  refine fun _ => ⟨fun _ header len challenge hheader hchallenge _ => ?_, fun hstate => ?_⟩
  · have hopen := acceptance_open
    rw [hheader, hchallenge, Except.toOption, Option.all_some, Option.all_some, Bool.not_eq_true'] at hopen
    exact hopen
  · have hresponding : challenged.state = .responding := by decide +kernel
    rw [hresponding] at hstate
    cases hstate

/-- The player is connected, and there is a deadline. -/
theorem deadline_until_ended_greeted : admitted.state = .connected ∧ admitted.nextTimeout.isSome = true := by
  have hconnected : admitted.state = .connected := by decide +kernel
  have hfirst : begun.Seen clearSuite (heard ((encodeChallenge [1] 9).getD [])) := fun _ => ⟨nofun, nofun⟩
  have hchallenged : Lts.Reach (sys clearSuite) (Seen clearSuite) challenged :=
    .step begun_reachable hfirst (by rw [challenged]; rfl)
  have hadmitted : Lts.Reach (sys clearSuite) (Seen clearSuite) admitted :=
    .step hchallenged acceptance_seen (by rw [admitted]; rfl)
  exact ⟨hconnected, (deadline_until_ended clearSuite hadmitted).1 (.inr (.inr hconnected))⟩

/-- **A connection can close unseen.** A player who leaves sends the last close
notice from `poll_transmit`; one turned away is told so by the packet that
accepts them. Either way the connector is still connected, and nothing is left
to wake it. -/
theorem closed_unseen :
    (∃ k, Lts.Reachable (sys clearSuite) k ∧
      k = (greeting host ++ [.close, polls, polls, polls]).foldl (after clearSuite) begun ∧ k.state = .connected ∧
      k.nextTimeout = none) ∧
    ∃ k, Lts.Reachable (sys clearSuite) k ∧
      k = (greeting (host.close .serverShutdown)).foldl (after clearSuite) begun ∧ k.state = .connected ∧
      k.nextTimeout = none :=
  ⟨⟨_, reach_calls begun_reachable, rfl, by decide +kernel, by decide +kernel⟩,
    ⟨_, reach_calls begun_reachable, rfl, by decide +kernel, by decide +kernel⟩⟩

end Connector
end HexNet
