/-
The loop that joins a socket to the transport (`driver.rs`): feed received
datagrams in, run what is due, send what comes out, and report when to come
back; and the loop around a server's driver that shuts it down (`run.rs`).

A socket and an application are whatever implements their class. A call that
fails leaves the driver where it got to, so a step is a command in `EStateM`; an
index out of range, and a loop that its fuel does not see to its end, are the
fault `panic`. Of the counters a driver keeps, the model has the one it adds to
itself. Waiting between steps belongs to the caller.
-/
import HexNet.Winding

namespace HexNet

/-- What ends a step early: an error the socket returned, or a panic. -/
inductive Halt
  | io (code : Nat)
  | panic
  deriving DecidableEq

/-- Datagrams taken from the socket per call. -/
def recvBatch : Nat := 62

/-- Batches read in one step before it moves on. -/
def recvRounds : Nat := 8

/-- Packets built before the socket is called to send them. -/
def sendBatch : Nat := 62

/-- Datagrams one send call is given room for: a packet goes to two addresses at
most. -/
def maxTransmits : Nat := sendBatch * 2

/-- One received datagram, when the kernel saw it, and what is drawn at random
while it is handled. -/
structure Received where
  sender : SocketAddr
  bytes : List UInt8
  at_ : Timestamp
  draws : Endpoint.Draws

/-- One datagram to send. -/
structure Transmit where
  addr : SocketAddr
  bytes : List UInt8
  deriving DecidableEq

/-- A UDP socket, batched: `recv_batch` gives what arrived, `send_batch` how many
were taken from the front. -/
class Socket (S : Type) where
  recvBatch : S → S × Except Nat (List Received)
  sendBatch : S → List Transmit → S × Except Nat Nat

/-- A socket fills no more buffers than it is given. -/
class LawfulSocket (S : Type) [Socket S] : Prop where
  recv_le : ∀ {s s' : S} {batch : List Received}, Socket.recvBatch s = (s', .ok batch) → batch.length ≤ HexNet.recvBatch

/-- What the server-side application sees of the transport. `update` may call
the endpoint as it likes. -/
class ServerApp (A : Type) where
  onMessage : A → Timestamp → Handle → Message → A
  onEvent : A → EndpointEvent → A
  update : A → Timestamp → Endpoint → A × List EndpointOp
  nextWake : A → Option Timestamp

/-! ## The outbox -/

/-- The datagrams a packet is sent as: to a path under validation too. -/
def Destinations.transmits (dest : Destinations) (bytes : List UInt8) : List Transmit :=
  (some dest.primary :: [dest.probe]).filterMap (·.map (⟨·, bytes⟩))

/-- Packets awaiting a send call. -/
structure Outbox where
  queued : List (Destinations × List UInt8)
  queued_le : queued.length ≤ sendBatch

namespace Outbox

def empty : Outbox := ⟨[], Nat.zero_le _⟩

def isFull (o : Outbox) : Bool := o.queued.length == sendBatch

/-- Takes the next slot, where there is one: past the last, the index is out of
range. -/
def commit (o : Outbox) (dest : Destinations) (bytes : List UInt8) : Option Outbox :=
  if h : o.queued.length < sendBatch then
    some ⟨o.queued ++ [(dest, bytes)], by rw [List.length_append]; exact h⟩
  else none

/-- Queues a copy of a packet built elsewhere: a handshake reply. -/
def push (o : Outbox) (addr : SocketAddr) (bytes : List UInt8) : Option Outbox :=
  o.commit ⟨addr, none⟩ (bytes.take maxDatagram)

def transmits (o : Outbox) : List Transmit := o.queued.flatMap fun packet => packet.1.transmits packet.2

/-- Sends everything queued. What the socket did not take is dropped and
counted. -/
def flush {S : Type} [Socket S] (o : Outbox) (socket : S) (sendFailures : Nat) : Outbox × S × Except Nat Nat :=
  if o.queued.isEmpty then (o, socket, .ok sendFailures)
  else
    let sent := Socket.sendBatch socket o.transmits
    (empty, sent.1, sent.2.map fun taken => sendFailures + (o.transmits.length - min taken o.transmits.length))

end Outbox

/-- Drains the endpoint into the outbox until it is full or nothing is ready:
`drain_transmits` with an outbox for its sink, its slots blank: what they held
before shows in no packet. A turn takes a connection off those that are ready, so
as many turns as there are suffice. -/
def Endpoint.drainInto (now : Timestamp) : Nat → Endpoint → Outbox → Endpoint × Option Outbox
  | 0, e, o => (e, some o)
  | fuel + 1, e, o =>
    match e.ready with
    | [] => (e, some o)
    | handle :: ready =>
      if o.isFull then (e, some o)
      else
        let r := { e with ready }.drainOne now handle Connection.blank
        match r.2 with
        | [] => drainInto now fuel r.1 o
        | packet :: _ =>
          match o.commit packet.1 packet.2 with
          | none => (r.1, none)
          | some o => drainInto now fuel r.1 o

/-! ## The server -/

/-- A driver, and the application it serves. -/
structure ServerDriver (S A : Type) where
  socket : S
  endpoint : Endpoint
  sendFailures : Nat
  outbox : Outbox
  app : A

abbrev Serve (S A : Type) := EStateM Halt (ServerDriver S A)

namespace ServerDriver

variable {S A : Type} [Socket S] [ServerApp A] (suite : Suite)

def new (socket : S) (endpoint : Endpoint) (app : A) : ServerDriver S A := ⟨socket, endpoint, 0, .empty, app⟩

def flush : Serve S A Unit := fun d =>
  if maxTransmits < d.outbox.transmits.length then .error .panic d
  else
    let r := d.outbox.flush d.socket d.sendFailures
    let d := { d with outbox := r.1, socket := r.2.1 }
    match r.2.2 with
    | .ok sendFailures => .ok () { d with sendFailures }
    | .error code => .error (.io code) d

def push (addr : SocketAddr) (bytes : List UInt8) : Serve S A Unit := fun d =>
  match d.outbox.push addr bytes with
  | some outbox => .ok () { d with outbox }
  | none => .error .panic d

/-- Queues a reply, making room for it first. -/
def respond (addr : SocketAddr) (bytes : List UInt8) : Serve S A Unit := do
  if (← get).outbox.isFull then flush
  push addr bytes

/-- Hands the endpoint one datagram, and the application its messages. -/
def handle (r : Received) : Serve S A Action := fun d =>
  let handled := d.endpoint.handleDatagram suite r.at_ r.sender (r.bytes.take maxDatagram) r.draws
  .ok handled.2.1
    { d with
      endpoint := handled.1
      app := handled.2.2.foldl (fun app m => ServerApp.onMessage app r.at_ m.1 m.2) d.app }

def take (r : Received) : Serve S A Unit := do
  match ← handle suite r with
  | .respond addr out => respond addr out
  | _ => pure ()

/-- Hands the application every event the endpoint has queued. -/
def deliver : Nat → ServerDriver S A → ServerDriver S A
  | 0, d => d
  | fuel + 1, d =>
    let polled := d.endpoint.pollEvent
    match polled.2 with
    | none => d
    | some event => deliver fuel { d with endpoint := polled.1, app := ServerApp.onEvent d.app event }

def deliverEvents : Serve S A Unit := fun d => .ok () (deliver d.endpoint.events.length d)

/-- Fills the inbox: the batch that arrived. -/
def fill : Serve S A (List Received) := fun d =>
  let r := Socket.recvBatch d.socket
  let d := { d with socket := r.1 }
  match r.2 with
  | .error code => .error (.io code) d
  | .ok batch => if recvBatch < batch.length then .error .panic d else .ok batch d

/-- Reads and handles batches, and says whether more may be waiting. -/
def receive : Nat → Serve S A Bool
  | 0 => pure true
  | rounds + 1 => do
    let batch ← fill
    batch.forM (take suite)
    deliverEvents
    if batch.length < recvBatch then pure false else receive rounds

def handleTimeout (now : Timestamp) : Serve S A Unit := fun d =>
  .ok () { d with endpoint := d.endpoint.handleTimeout now }

def update (now : Timestamp) : Serve S A Unit := fun d =>
  let r := ServerApp.update d.app now d.endpoint
  .ok () { d with app := r.1, endpoint := r.2.foldl (·.after suite ·) d.endpoint }

def drain (now : Timestamp) : Serve S A Unit := fun d =>
  let r := Endpoint.drainInto now d.endpoint.ready.length d.endpoint d.outbox
  match r.2 with
  | none => .error .panic { d with endpoint := r.1 }
  | some outbox => .ok () { d with endpoint := r.1, outbox }

/-- Drains the endpoint into send batches until it has nothing more. -/
def transmitLoop (now : Timestamp) : Nat → Serve S A Unit
  | 0 => throw .panic
  | fuel + 1 => do
    drain now
    let filled := (← get).outbox.isFull
    flush
    if filled then transmitLoop now fuel else pure ()

/-- A batch that is full has a connection's packet in it or, the first time,
was full before. -/
def transmit (now : Timestamp) : Serve S A Unit := do
  transmitLoop now ((← get).endpoint.ready.length + 2)

/-- Does everything due at `now`: when to call again if no datagram arrives
first. -/
def step (now : Timestamp) : Serve S A (Option Timestamp) := do
  let backlog ← receive suite recvRounds
  handleTimeout now
  deliverEvents
  update suite now
  transmit now
  let d ← get
  return Timestamp.earliest (Timestamp.earliest d.endpoint.nextTimeout (ServerApp.nextWake d.app))
    (if backlog then some now else none)

/-- One step after another. -/
def steps : List Timestamp → Serve S A Unit
  | [] => pure ()
  | now :: rest => do
    let _ ← step suite now
    steps rest

def isEmpty (d : ServerDriver S A) : Bool := d.endpoint.connections.len == 0

/-- Steps until no connection is left or the clock has reached `giveUp`; each
turn reads the clock before the step and after. Whether it came to its end. -/
def lingerLoop (giveUp : Timestamp) : List (Timestamp × Timestamp) → Serve S A Bool
  | [] => pure false
  | (started, checked) :: readings => do
    let _ ← step suite started
    if (← get).isEmpty || decide (giveUp ≤ checked) then pure true else lingerLoop giveUp readings

/-- Closes every connection with a notice and keeps stepping. -/
def shutdownServer (linger : Span) (first : Timestamp) (readings : List (Timestamp × Timestamp)) : Serve S A Bool := do
  modify fun d => { d with endpoint := d.endpoint.shutdown }
  lingerLoop suite (first.saturatingAdd linger) readings

end ServerDriver

end HexNet
