/-
The server's front door (`endpoint.rs`): routing, handshakes, and session
lifetime.

Counters are left out: nothing reads them. Hash maps are functions, the heap
of spent tickets is the sorted list it pops, and the array of schedules is a
function of the slot. A call that delivers messages returns them, and the
datagram `Respond` answers with is in the action. A sink is the list of
buffers it hands over before it is full.
-/
import HexNet.ConnectionFacts
import HexNet.Handshake
import HexNet.Slab
import HexNet.Timer

namespace HexNet

/-! ## Rate limits -/

/-- How a token bucket fills: up to `burst` tokens, one per `interval`. -/
structure RefillPolicy where
  burst : Nat
  interval : Span

def perAddress : RefillPolicy := ⟨32, Span.fromMicros 62500⟩

def globalRequests : RefillPolicy := ⟨1024, Span.fromMicros 125⟩

/-- The same bound for cookie echoes, held separately. -/
def globalResponses : RefillPolicy := globalRequests

structure Bucket (policy : RefillPolicy) where
  tokens : Nat
  lastRefill : Timestamp
  le : tokens ≤ policy.burst

namespace Bucket

variable {policy : RefillPolicy}

def full : Bucket policy := ⟨policy.burst, .zero, le_refl _⟩

def refill (b : Bucket policy) (now : Timestamp) : Bucket policy :=
  let intervals := (now.since b.lastRefill).nanos / policy.interval.nanos
  if intervals = 0 then b
  else if h : intervals < 2 ^ 32 ∧ intervals < policy.burst - b.tokens then
    ⟨b.tokens + intervals, b.lastRefill.saturatingAdd (policy.interval.saturatingMul intervals), by have := b.le; omega⟩
  else ⟨policy.burst, now, le_refl _⟩

def ready (b : Bucket policy) : Bool := 0 < b.tokens

def spend (b : Bucket policy) : Bucket policy := ⟨b.tokens - 1, b.lastRefill, Nat.le_trans (Nat.sub_le _ _) b.le⟩

end Bucket

inductive SourceKey
  | v4 (bits : BitVec 32)
  | v6Prefix (bits : BitVec 64)
  deriving DecidableEq

def sourceKey (addr : SocketAddr) : SourceKey :=
  match addr.ip with
  | .v4 ip => .v4 ip
  | .v6 ip => .v6Prefix (ip.extractLsb' 64 64)

/-- Per-address token buckets in a fixed, direct-mapped table. -/
structure RateLimiter where
  slots : List (Bucket perAddress)
  mask : Nat
  /-- The process's keyed hash. -/
  hasher : SourceKey → Nat

namespace RateLimiter

def new (slots : Nat) (hasher : SourceKey → Nat) : RateLimiter :=
  ⟨List.replicate slots.nextPowerOfTwo .full, slots.nextPowerOfTwo - 1, hasher⟩

def take (l : RateLimiter) (now : Timestamp) (addr : SocketAddr) : RateLimiter × Bool :=
  let slot := l.hasher (sourceKey addr) &&& l.mask
  let refilled := (l.slots.getD slot .full).refill now
  if refilled.ready then ({ l with slots := l.slots.set slot refilled.spend }, true)
  else ({ l with slots := l.slots.set slot refilled }, false)

end RateLimiter

/-- Spends handshake budget: the global token is held while the address is
judged, and spent only if it passes. -/
def charge {policy : RefillPolicy} (global : Bucket policy) (limiter : RateLimiter) (now : Timestamp)
    (sender : SocketAddr) : Bucket policy × RateLimiter × Bool :=
  let refilled := global.refill now
  if refilled.ready then
    let taken := limiter.take now sender
    if taken.2 then (refilled.spend, taken.1, true) else (refilled, taken.1, false)
  else (refilled, limiter, false)

/-! ## The endpoint's state -/

structure Shard where
  id : ShardId
  count : ShardCount
  serverKey : Key
  mem : count.contains id = true

structure EndpointConfig where
  capacity : Nat
  limiterSlots : Nat
  transport : TransportConfig
  shard : Shard

inductive DropReason
  | malformed
  | unknownConnection
  | rejected
  | rateLimited
  | handshake (error : HandshakeError)
  | full
  | noSuchShard
  deriving DecidableEq

inductive Action
  | done
  | respond (addr : SocketAddr) (out : List UInt8)
  | routed (handle : Handle)
  | connected (handle : Handle)
  /-- Belongs to another shard of this endpoint's group. -/
  | forward (shard : ShardId)
  | dropped (reason : DropReason)
  deriving DecidableEq

inductive EndpointEvent
  /-- `session` is fresh for a new player, or the one being reattached. -/
  | connected (handle : Handle) (session : SessionId) (resumed : Bool)
  | disconnected (session : SessionId) (reason : CloseReason) (suspended : Bool)
  /-- The grace period lapsed. -/
  | sessionExpired (session : SessionId)
  | migrated (handle : Handle) (session : SessionId) (addr : SocketAddr)
  deriving DecidableEq

inductive SessionState
  | live (handle : Handle)
  | suspended (since : Timestamp)
  deriving DecidableEq

structure Session where
  /-- The `clientId` of the ticket that created it. -/
  owner : BitVec 64
  state : SessionState
  deriving DecidableEq

structure Redeemed where
  /-- The connection it produced, while that connection lives. -/
  connection : Option Handle
  deriving DecidableEq

structure Schedule where
  ready : Bool
  retiring : Bool
  closedWith : CloseReason
  deriving DecidableEq

def Schedule.default : Schedule := ⟨false, false, .timedOut⟩

structure Destinations where
  primary : SocketAddr
  probe : Option SocketAddr
  deriving DecidableEq

/-- Owns every connection on one socket. -/
structure Endpoint where
  config : EndpointConfig
  channels : ChannelSet
  connections : Slab (Connection Server)
  redeemed : TicketId → Option Redeemed
  /-- Spent tickets in order of expiry. -/
  redeemedExpiry : List (Timestamp × TicketId)
  sessions : SessionId → Option Session
  acceptor : Acceptor
  limiter : RateLimiter
  requests : Bucket globalRequests
  responses : Bucket globalResponses
  nextSessionSequence : Nat
  schedules : Nat → Schedule
  /-- Each connection's next deadline, keyed by slot. -/
  timers : TimerHeap
  ready : List Handle
  /-- Closed connections awaiting removal. -/
  retiring : List Handle
  /-- Suspended sessions in order of suspension. -/
  suspended : List (Timestamp × SessionId)
  /-- Events not yet polled, oldest first. -/
  events : List EndpointEvent

def reapBatch : Nat := 64

def maxConnections : Nat := ConnectionId.slots

/-- The id of the connection `handle` refers to on `shard`. A slab generation
advances twice per occupancy, so half of it counts them. -/
def connIdFor (handle : Handle) (shard : ShardId) : ConnectionId :=
  .new handle.index (handle.generation.toNat >>> 1) shard

/-- Where a spent ticket stands among those already waiting to be forgotten. -/
def expiryPrecedes (a b : Timestamp × TicketId) : Bool := a.1 < b.1 ∨ a.1 = b.1 ∧ a.2.nonce < b.2.nonce

def pushExpiry (spent : Timestamp × TicketId) : List (Timestamp × TicketId) → List (Timestamp × TicketId)
  | [] => [spent]
  | next :: rest => if expiryPrecedes spent next then spent :: next :: rest else next :: pushExpiry spent rest

namespace Endpoint

variable (suite : Suite)

def new (config : EndpointConfig) (backendKey : Key) (channels : ChannelSet) (hasher : SourceKey → Nat) : Endpoint :=
  let capacity := min config.capacity maxConnections
  { config := { config with capacity }
    channels
    connections := .withCapacity capacity (Nat.lt_of_le_of_lt (Nat.min_le_right ..) (by decide))
    redeemed := fun _ => none
    redeemedExpiry := []
    sessions := fun _ => none
    acceptor := ⟨backendKey, config.shard.serverKey, config.shard.count⟩
    limiter := .new config.limiterSlots hasher
    requests := .full
    responses := .full
    nextSessionSequence := 1
    schedules := fun _ => .default
    timers := .withSlots capacity
    ready := []
    retiring := []
    suspended := []
    events := [] }

def shard (e : Endpoint) : ShardId := e.config.shard.id

def pollEvent (e : Endpoint) : Endpoint × Option EndpointEvent := ({ e with events := e.events.tail }, e.events.head?)

def connIdOf (e : Endpoint) (handle : Handle) : ConnectionId := connIdFor handle e.shard

/-! ### Connections -/

/-- Queues a connection to transmit on the next drain. -/
def touch (e : Endpoint) (handle : Handle) : Endpoint :=
  let schedule := e.schedules handle.index
  if schedule.ready then e
  else
    { e with
      schedules := Function.update e.schedules handle.index { schedule with ready := true }
      ready := e.ready ++ [handle] }

/-- `connection_mut`, with what the caller does to the connection. -/
def connectionMut (e : Endpoint) (handle : Handle) (f : Connection Server → Connection Server) : Endpoint :=
  if e.connections.contains handle then
    let e := e.touch handle
    { e with connections := e.connections.modify handle f }
  else e

/-- The newest migration and the newest closure among a connection's events. -/
def lastMigrated (events : List Event) : Option SocketAddr :=
  events.foldl (fun found event => match event with | .migrated addr => some addr | _ => found) none

def lastClosed (events : List Event) : Option CloseReason :=
  events.foldl (fun found event => match event with | .closed reason => some reason | _ => found) none

/-- Moves a connection's events out to the endpoint's own queue. -/
def pumpEvents (e : Endpoint) (handle : Handle) : Endpoint :=
  match e.connections.get handle with
  | none => e
  | some conn =>
    { e with
      connections := e.connections.modify handle fun conn => { conn with events := .empty }
      events := e.events ++ ((lastMigrated conn.events.items).map (.migrated handle conn.role.session)).toList
      schedules :=
        match lastClosed conn.events.items with
        | none => e.schedules
        | some closedWith =>
          Function.update e.schedules handle.index { e.schedules handle.index with closedWith } }

def issueResumeTicket (e : Endpoint) (now : Timestamp) (handle : Handle) (ticket : Ticket) (draw : Option BlobNonce) :
    Endpoint × Except HandshakeError Unit :=
  match (e.acceptor.encryptResumeTicket suite now ticket draw).bind FixedVec.fromSlice with
  | none => (e, .error .malformed)
  | some stored =>
    if e.connections.contains handle then (e.connectionMut handle (·.sendResumeTicket stored), .ok ())
    else (e, .error .noSession)

/-! ### Datagrams -/

def misrouted (e : Endpoint) (owner : ShardId) : Action :=
  if e.config.shard.count.contains owner then .forward owner else .dropped .noSuchShard

def deliver (e : Endpoint) (now : Timestamp) (sender : SocketAddr) (datagram : List UInt8) (handle : Handle)
    (conn : Connection Server) : Endpoint × Action × List (Handle × Message) :=
  let r := conn.handleDatagram now sender datagram
  let e := { e with connections := e.connections.modify handle fun _ => r.1 }
  let messages := r.2.1.map fun m => (handle, m)
  match r.2.2 with
  | .ok () | .error .badPayload => ((e.touch handle).pumpEvents handle, .routed handle, messages)
  | .error _ => (e, .dropped .rejected, messages)

/-- Routes by connection id, never by source address. -/
def routePayload (e : Endpoint) (now : Timestamp) (sender : SocketAddr) (datagram : List UInt8) :
    Endpoint × Action × List (Handle × Message) :=
  match Header.decode datagram with
  | .error _ => (e, .dropped .malformed, [])
  | .ok (header, _) =>
    match (e.connections.handleAt (ConnectionId.slot header.connId)).filter
        (fun handle => e.connIdOf handle = header.connId) with
    | none => (e, .dropped .unknownConnection, [])
    | some handle =>
      match e.connections.get handle with
      | none => (e, .dropped .unknownConnection, [])
      | some conn => e.deliver now sender datagram handle conn

def chargeHandshake (e : Endpoint) (now : Timestamp) (sender : SocketAddr) (kind : PacketKind) : Endpoint × Bool :=
  match kind with
  | .response =>
    let r := charge e.responses e.limiter now sender
    ({ e with responses := r.1, limiter := r.2.1 }, r.2.2)
  | _ =>
    let r := charge e.requests e.limiter now sender
    ({ e with requests := r.1, limiter := r.2.1 }, r.2.2)

/-- The single place ticket policy lives: expiry, and whether a resume is
permitted for the session named. -/
def checkTicket (e : Endpoint) (now : Timestamp) (ticket : Ticket) : Except HandshakeError Unit :=
  match ticket.checkExpiry now with
  | .error error => .error error
  | .ok () =>
    match ticket.session with
    | none => .ok ()
    | some session =>
      match e.sessions session with
      | none => .error .noSession
      | some record =>
        if record.owner ≠ ticket.clientId then .error .noSession
        else
          match record.state with
          | .live _ => .ok ()
          | .suspended since => if now.since since < resumeGrace then .ok () else .error .noSession

/-- What a challenge is made with: the server's nonce, and the one its cookie
is sealed under. -/
structure Draws where
  serverNonce : ServerNonce
  sealing : Option BlobNonce

/-- Whether a request's ticket may be challenged. Only the ticket's home holds
the session it names and the record of whether it is spent; elsewhere only
expiry can be judged. -/
def judgeRequest (e : Endpoint) (now : Timestamp) (home : ShardId) (ticketId : TicketId) (ticket : Ticket) :
    Except HandshakeError Unit :=
  if home = e.shard then
    match e.checkTicket now ticket with
    | .error error => .error error
    | .ok () => if e.redeemed ticketId = some ⟨none⟩ then .error .spent else .ok ()
  else ticket.checkExpiry now

def answerRequest (e : Endpoint) (now : Timestamp) (sender : SocketAddr) (datagram : List UInt8) (draws : Draws) :
    Action :=
  match e.acceptor.decryptTicket suite datagram with
  | .error error => .dropped (.handshake error)
  | .ok ticket =>
    match requestNonce datagram, TicketId.ofRequest datagram with
    | some nonce, some ticketId =>
      match e.acceptor.home ticket ticketId with
      | none => .dropped (.handshake .noSession)
      | some home =>
        match e.judgeRequest now home ticketId ticket with
        | .error error => .dropped (.handshake error)
        | .ok () =>
          match e.acceptor.encryptCookie suite now sender nonce draws.serverNonce ticketId ticket draws.sealing with
          | .error error => .dropped (.handshake error)
          | .ok cookie =>
            match encodeChallenge cookie draws.serverNonce with
            | none => .dropped .malformed
            | some out => .respond sender out
    | _, _ => .dropped .malformed

def handleRequest (e : Endpoint) (now : Timestamp) (sender : SocketAddr) (datagram : List UInt8) (draws : Draws) :
    Endpoint × Action :=
  let charged := e.chargeHandshake now sender .request
  if charged.2 then (charged.1, charged.1.answerRequest suite now sender datagram draws)
  else (charged.1, .dropped .rateLimited)

/-- A response's cookie, where it is authentic, from the address it was issued
to, and in time. -/
def openResponse (e : Endpoint) (now : Timestamp) (sender : SocketAddr) (datagram : List UInt8) :
    Except HandshakeError Cookie :=
  match e.acceptor.decryptCookie suite datagram with
  | .error error => .error error
  | .ok cookie =>
    if cookie.addr ≠ sender then .error .addressMismatch
    else if cookieLifetime < now.since cookie.issuedAt then .error .expired
    else .ok cookie

/-- A spent ticket produces nothing new. While its connection lives, the
acceptance is sent again. -/
def answerSpent (e : Endpoint) (spent : Redeemed) : Endpoint × Action :=
  match spent.connection with
  | some handle =>
    if e.connections.contains handle then (e.connectionMut handle (·.resendAcceptance), .connected handle)
    else (e, .dropped (.handshake .spent))
  | none => (e, .dropped (.handshake .spent))

/-- The session a cookie's ticket attaches to: the one it names, or a fresh one. -/
def openSession (e : Endpoint) (cookie : Cookie) : Endpoint × SessionId × Bool :=
  match cookie.ticket.session with
  | some session => (e, session, true)
  | none =>
    ({ e with nextSessionSequence := e.nextSessionSequence + 1 }, .new e.nextSessionSequence e.shard, false)

/-- Taking over a live session closes the connection that held it. -/
def takeOver (e : Endpoint) (session : SessionId) : Endpoint :=
  match e.sessions session with
  | some ⟨_, .live prev⟩ => e.connectionMut prev (·.close .replaced)
  | some ⟨_, .suspended _⟩ | none => e

/-- The connection a cookie is redeemed for, in the slot it is about to take. -/
def accepted (e : Endpoint) (now : Timestamp) (sender : SocketAddr) (cookie : Cookie) (session : SessionId)
    (handle : Handle) : Connection Server :=
  let keys := cookie.ticket.keys.forConnection suite (e.connIdOf handle) cookie.nonce cookie.serverNonce
  .accept now (e.connIdOf handle) session cookie.ticketId sender (suite keys.keys.serverToClient)
    (suite keys.keys.clientToServer) e.channels e.config.transport

/-- Everything that follows a connection taking its slot. -/
def settled (e : Endpoint) (cookie : Cookie) (session : SessionId) (resumed : Bool) (handle : Handle) : Endpoint :=
  let e := { e with schedules := Function.update e.schedules handle.index .default }
  let e := e.touch handle
  { e with
    sessions := Function.update e.sessions session (some ⟨cookie.ticket.clientId, .live handle⟩)
    redeemed := Function.update e.redeemed cookie.ticketId (some ⟨some handle⟩)
    redeemedExpiry := pushExpiry (cookie.ticket.expiresAt, cookie.ticketId) e.redeemedExpiry
    events := e.events ++ [.connected handle session resumed] }

def admitPlayer (e : Endpoint) (now : Timestamp) (sender : SocketAddr) (cookie : Cookie) : Endpoint × Action :=
  let opened := e.openSession cookie
  let e := opened.1.takeOver opened.2.1
  let inserted := e.connections.insertWith (e.accepted suite now sender cookie opened.2.1)
  let e := { e with connections := inserted.1 }
  match inserted.2 with
  | none => (e, .dropped .full)
  | some handle => (e.settled cookie opened.2.1 opened.2.2 handle, .connected handle)

def redeem (e : Endpoint) (now : Timestamp) (sender : SocketAddr) (cookie : Cookie) : Endpoint × Action :=
  match e.redeemed cookie.ticketId with
  | some spent => e.answerSpent spent
  | none =>
    match e.checkTicket now cookie.ticket with
    | .error error => (e, .dropped (.handshake error))
    | .ok () =>
      if e.connections.capacity ≤ e.connections.len then (e, .dropped .full)
      else e.admitPlayer suite now sender cookie

def handleResponse (e : Endpoint) (now : Timestamp) (sender : SocketAddr) (datagram : List UInt8) : Endpoint × Action :=
  let charged := e.chargeHandshake now sender .response
  if charged.2 then
    match charged.1.openResponse suite now sender datagram with
    | .error error => (charged.1, .dropped (.handshake error))
    | .ok cookie => charged.1.redeem suite now sender cookie
  else (charged.1, .dropped .rateLimited)

/-- Handles a datagram this shard owns, or may answer. -/
def dispatch (e : Endpoint) (now : Timestamp) (sender : SocketAddr) (datagram : List UInt8) (draws : Draws) :
    Endpoint × Action × List (Handle × Message) :=
  match peekKind datagram with
  | none => (e, .dropped .malformed, [])
  | some .payload => e.routePayload now sender datagram
  | some .request =>
    let r := e.handleRequest suite now sender datagram draws
    (r.1, r.2, [])
  | some .response =>
    let r := e.handleResponse suite now sender datagram
    (r.1, r.2, [])
  | some .challenge => (e, .dropped .malformed, [])

/-- Processes one datagram: the messages it delivered. -/
def handleDatagram (e : Endpoint) (now : Timestamp) (sender : SocketAddr) (datagram : List UInt8) (draws : Draws) :
    Endpoint × Action × List (Handle × Message) :=
  match ownerShard datagram with
  | some owner =>
    if owner ≠ e.shard then (e, e.misrouted owner, []) else e.dispatch suite now sender datagram draws
  | none => e.dispatch suite now sender datagram draws

/-! ### Transmitting -/

/-- Moves the connection's timer to its current deadline, or queues it for
removal once it has closed. -/
def rearm (e : Endpoint) (handle : Handle) (deadline : Option Timestamp) : Endpoint :=
  match deadline with
  | some at_ => { e with timers := e.timers.set handle.index at_ }
  | none =>
    let e := { e with timers := e.timers.cancel handle.index }
    let schedule := e.schedules handle.index
    if schedule.retiring then e
    else
      { e with
        schedules := Function.update e.schedules handle.index { schedule with retiring := true }
        retiring := e.retiring ++ [handle] }

/-- One turn of a drain: the connection at the head of the queue, and the
buffer it may fill. -/
def drainOne (e : Endpoint) (now : Timestamp) (handle : Handle) (slot : Packet) :
    Endpoint × List (Destinations × List UInt8) :=
  match e.connections.get handle with
  | none => (e, [])
  | some conn =>
    let r := conn.pollTransmit now slot
    let schedule := e.schedules handle.index
    let e :=
      { e with
        schedules := Function.update e.schedules handle.index { schedule with ready := false }
        connections := e.connections.modify handle fun _ => r.1 }
    (e.rearm handle r.1.nextTimeout, (r.2.map fun datagram => (⟨r.1.addr, r.1.probeAddr⟩, datagram)).toList)

/-- Produces at most one packet for each connection that may have something to
send, then rearms its timer: what was committed to the sink. -/
def drainTransmits (now : Timestamp) : List Packet → Endpoint → Endpoint × List (Destinations × List UInt8)
  | [], e => (e, [])
  | slot :: slots, e =>
    match e.ready with
    | [] => (e, [])
    | handle :: ready =>
      let r := { e with ready }.drainOne now handle slot
      let rest := drainTransmits now slots r.1
      (rest.1, r.2 ++ rest.2)

/-! ### Timers -/

def service (e : Endpoint) (now : Timestamp) (slot : Nat) : Endpoint :=
  match e.connections.handleAt slot with
  | none => e
  | some handle =>
    let e := { e with connections := e.connections.modify handle (·.handleTimeout now) }
    (e.touch handle).pumpEvents handle

/-- Services connections until none is due. A turn takes an entry out of the
timers and puts none in, so as many turns as there are entries suffice. -/
def serviceDue (now : Timestamp) : Nat → Endpoint → Endpoint
  | 0, e => e
  | fuel + 1, e =>
    let popped := e.timers.popDue now
    let e := { e with timers := popped.1 }
    match popped.2 with
    | none => e
    | some slot => serviceDue now fuel (e.service now slot)

/-- A player who disconnected on purpose is gone. One who dropped may be
reconnecting already, so their place is held. -/
def departs (reason : CloseReason) : Bool :=
  match reason with
  | .requested | .serverShutdown => true
  | .timedOut | .protocolViolation | .replaced => false

/-- What becomes of the session a removed connection served. One resumed
elsewhere already points at its new connection. -/
def detach (e : Endpoint) (handle : Handle) (session : SessionId) (reason : CloseReason) (now : Timestamp) : Endpoint :=
  match e.sessions session with
  | some record =>
    if record.state = .live handle then
      if departs reason then
        { e with
          sessions := Function.update e.sessions session none
          events := e.events ++ [.disconnected session reason false] }
      else
        { e with
          sessions := Function.update e.sessions session (some { record with state := .suspended now })
          suspended := e.suspended ++ [(now, session)]
          events := e.events ++ [.disconnected session reason true] }
    else { e with events := e.events ++ [.disconnected session reason false] }
  | none => { e with events := e.events ++ [.disconnected session reason false] }

/-- Takes a connection out of everything kept about it but its session. -/
def removed (e : Endpoint) (handle : Handle) (ticketId : TicketId) : Endpoint :=
  { e with
    schedules := Function.update e.schedules handle.index .default
    -- The ticket stays spent until it expires. Only the retry path closes.
    redeemed :=
      match e.redeemed ticketId with
      | some _ => Function.update e.redeemed ticketId (some ⟨none⟩)
      | none => e.redeemed
    timers := e.timers.cancel handle.index
    connections := (e.connections.remove handle).1 }

def retire (e : Endpoint) (handle : Handle) (now : Timestamp) : Endpoint :=
  let e := e.pumpEvents handle
  match e.connections.get handle with
  | none => e
  | some conn =>
    (e.removed handle conn.role.ticket).detach handle conn.role.session (e.schedules handle.index).closedWith now

def reap (now : Timestamp) : Nat → Endpoint → Endpoint
  | 0, e => e
  | batch + 1, e =>
    match e.retiring with
    | [] => e
    | handle :: retiring => reap now batch ({ e with retiring }.retire handle now)

/-- Whether a queue entry still says when its session was suspended. -/
def lapsed (e : Endpoint) (since : Timestamp) (session : SessionId) : Bool :=
  (e.sessions session).any fun record => record.state = .suspended since

/-- Removes sessions whose grace period has lapsed, oldest first, at most
`batch` of them. A turn takes an entry off the queue, so as many turns as it
has entries suffice. -/
def expireSessions (now : Timestamp) : (fuel batch : Nat) → Endpoint → Endpoint
  | 0, _, e => e
  | fuel + 1, batch, e =>
    match e.suspended with
    | [] => e
    | (since, session) :: suspended =>
      if 0 < batch ∧ resumeGrace ≤ now.since since then
        if e.lapsed since session then
          expireSessions now fuel (batch - 1)
            { e with
              suspended
              sessions := Function.update e.sessions session none
              events := e.events ++ [.sessionExpired session] }
        else expireSessions now fuel batch { e with suspended }
      else e

/-- Forgets spent tickets past their expiry, as many as there are. -/
def forgetExpiredTickets (now : Timestamp) : Nat → Endpoint → Endpoint
  | 0, e => e
  | fuel + 1, e =>
    match e.redeemedExpiry with
    | [] => e
    | (at_, id) :: redeemedExpiry =>
      if at_ < now then
        forgetExpiredTickets now fuel { e with redeemedExpiry, redeemed := Function.update e.redeemed id none }
      else e

/-- Services the connections whose deadlines have passed, retires closed
connections, and expires suspended sessions. -/
def passTimers (e : Endpoint) (now : Timestamp) : Endpoint :=
  let e := serviceDue now e.timers.entries.length e
  let e := reap now reapBatch e
  expireSessions now e.suspended.length reapBatch e

def handleTimeout (e : Endpoint) (now : Timestamp) : Endpoint :=
  let e := e.passTimers now
  forgetExpiredTickets now e.redeemedExpiry.length e

/-- The earliest time `handleTimeout` or `drainTransmits` next has work. -/
def nextTimeout (e : Endpoint) : Option Timestamp :=
  if !e.ready.isEmpty || !e.retiring.isEmpty then some .zero
  else
    Timestamp.earliest (e.timers.peek.map (·.1))
      (e.suspended.head?.map fun entry => entry.1.saturatingAdd resumeGrace)

def shutdown (e : Endpoint) : Endpoint :=
  e.connections.handles.foldl (fun e handle => e.connectionMut handle (·.close .serverShutdown)) e

end Endpoint
end HexNet
