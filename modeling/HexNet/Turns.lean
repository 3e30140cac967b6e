/-
What each operation of an endpoint is made of. A call is a run of turns, each
of which does one thing to one connection, session or ticket, unless it is a
response that admits a player (`after_cases`); every invariant over runs is
checked of the turns and of an admission.
-/
import Mathlib.Logic.Relation
import HexNet.Endpoint
import HexNet.HandshakeFacts
import HexNet.Identity
import HexNet.SlabFacts

namespace HexNet

open Connection (Call)

/-- A call to an endpoint. -/
inductive EndpointOp
  | handleDatagram (now : Timestamp) (sender : SocketAddr) (datagram : List UInt8) (draws : Endpoint.Draws)
  | handleTimeout (now : Timestamp)
  | drainTransmits (now : Timestamp) (slots : List Packet)
  /-- `connection_mut`, and a call to the connection. -/
  | connectionMut (handle : Handle) (call : Call Server)
  | issueResumeTicket (now : Timestamp) (handle : Handle) (ticket : Ticket) (draw : Option BlobNonce)
  | shutdown
  | pollEvent

/-- The time a call is made at, where it is given one. -/
def EndpointOp.time : EndpointOp → Option Timestamp
  | .handleDatagram now _ _ _ | .handleTimeout now | .drainTransmits now _ | .issueResumeTicket now _ _ _ => some now
  | .connectionMut _ _ | .shutdown | .pollEvent => none

/-- A time that is the call's where it has one. -/
theorem EndpointOp.exists_time (op : EndpointOp) : ∃ now, ∀ t, op.time = some t → t = now :=
  ⟨op.time.getD .zero, fun t ht => by rw [ht, Option.getD_some]⟩

namespace Endpoint

variable (suite : Suite)

/-- What a call leaves. -/
def after (e : Endpoint) : EndpointOp → Endpoint
  | .handleDatagram now sender datagram draws => (e.handleDatagram suite now sender datagram draws).1
  | .handleTimeout now => e.handleTimeout now
  | .drainTransmits now slots => (drainTransmits now slots e).1
  | .connectionMut handle call => e.connectionMut handle (·.after call)
  | .issueResumeTicket now handle ticket draw => (e.issueResumeTicket suite now handle ticket draw).1
  | .shutdown => e.shutdown
  | .pollEvent => e.pollEvent.1

/-! ## Frames -/

section

variable (e : Endpoint) (handle : Handle)

theorem touch_frame : ∃ schedules ready, e.touch handle = { e with schedules, ready } := by
  unfold touch
  dsimp only
  split <;> exact ⟨_, _, rfl⟩

theorem connectionMut_frame (f : Connection Server → Connection Server) :
    ∃ connections schedules ready, e.connectionMut handle f = { e with connections, schedules, ready } := by
  unfold connectionMut
  split
  · obtain ⟨schedules, ready, heq⟩ := e.touch_frame handle
    rw [heq]
    exact ⟨_, _, _, rfl⟩
  · exact ⟨_, _, _, rfl⟩

theorem pumpEvents_frame :
    ∃ connections events schedules, e.pumpEvents handle = { e with connections, events, schedules } := by
  unfold pumpEvents
  split <;> exact ⟨_, _, _, rfl⟩

theorem takeOver_frame (session : SessionId) :
    ∃ connections schedules ready, e.takeOver session = { e with connections, schedules, ready } := by
  unfold takeOver
  split
  · exact e.connectionMut_frame ..
  · exact ⟨_, _, _, rfl⟩
  · exact ⟨_, _, _, rfl⟩

theorem openSession_frame (cookie : Cookie) :
    ∃ nextSessionSequence, (e.openSession cookie).1 = { e with nextSessionSequence } := by
  unfold openSession
  split <;> exact ⟨_, rfl⟩

theorem rearm_frame (deadline : Option Timestamp) :
    ∃ timers schedules retiring, e.rearm handle deadline = { e with timers, schedules, retiring } := by
  unfold rearm
  split
  · exact ⟨_, _, _, rfl⟩
  · dsimp only
    split <;> exact ⟨_, _, _, rfl⟩

theorem detach_frame (session : SessionId) (reason : CloseReason) (now : Timestamp) :
    ∃ sessions suspended events, e.detach handle session reason now = { e with sessions, suspended, events } := by
  unfold detach
  split
  · split
    · split <;> exact ⟨_, _, _, rfl⟩
    · exact ⟨_, _, _, rfl⟩
  · exact ⟨_, _, _, rfl⟩

theorem drainOne_frame (now : Timestamp) (slot : Packet) :
    ∃ connections timers schedules retiring,
      (e.drainOne now handle slot).1 = { e with connections, timers, schedules, retiring } := by
  unfold drainOne
  split
  · exact ⟨_, _, _, _, rfl⟩
  · dsimp only
    generalize hdrained : ({ e with connections := _, schedules := _ } : Endpoint) = e'
    obtain ⟨timers, schedules, retiring, heq⟩ := e'.rearm_frame handle _
    rw [heq, ← hdrained]
    exact ⟨_, _, _, _, rfl⟩

/-- Queueing a connection whose state changed, and taking its events. -/
theorem touchPump_frame (connections : Slab (Connection Server)) :
    ∃ connections' events schedules ready, ({ e with connections }.touch handle).pumpEvents handle =
      { e with connections := connections', events, schedules, ready } := by
  obtain ⟨schedules, ready, htouch⟩ := ({ e with connections } : Endpoint).touch_frame handle
  obtain ⟨connections', events, schedules', hpump⟩ :=
    (({ e with connections } : Endpoint).touch handle).pumpEvents_frame handle
  rw [hpump, htouch]
  exact ⟨_, _, _, _, rfl⟩

theorem service_frame (now : Timestamp) (slot : Nat) :
    ∃ connections events schedules ready, e.service now slot = { e with connections, events, schedules, ready } := by
  unfold service
  split
  · exact ⟨_, _, _, _, rfl⟩
  · exact e.touchPump_frame ..

end

/-- The runs of an endpoint: calls in any order, with any times. -/
def sys : Lts.Sys Endpoint EndpointOp where
  start e := ∃ config backendKey channels hasher, e = .new config backendKey channels hasher
  step e op e' := e' = e.after suite op

/-! ## Turns -/

/-- One thing an endpoint does at `now`, short of admitting a player. -/
inductive Turn (now : Timestamp) : Endpoint → Endpoint → Prop
  /-- A handshake packet was charged for. -/
  | charged (e : Endpoint) (requests : Bucket globalRequests) (responses : Bucket globalResponses)
      (limiter : RateLimiter) : Turn now e { e with requests, responses, limiter }
  | called (e : Endpoint) (handle : Handle) (call : Call Server) : Turn now e (e.connectionMut handle (·.after call))
  /-- A connection took a datagram. -/
  | received (e : Endpoint) (sender : SocketAddr) (datagram : List UInt8) (handle : Handle) (conn : Connection Server) :
    e.connections.get handle = some conn →
    Turn now e
      (({ e with
          connections := e.connections.modify handle fun _ => (conn.handleDatagram now sender datagram).1 }.touch
            handle).pumpEvents handle)
  | drained (e : Endpoint) (handle : Handle) (ready : List Handle) (slot : Packet) :
    e.ready = handle :: ready → Turn now e ({ e with ready }.drainOne now handle slot).1
  | serviced (e : Endpoint) (slot : Nat) :
    (e.timers.popDue now).2 = some slot →
    Turn now e ({ e with timers := (e.timers.popDue now).1 }.service now slot)
  | retired (e : Endpoint) (handle : Handle) (retiring : List Handle) :
    e.retiring = handle :: retiring → Turn now e ({ e with retiring }.retire handle now)
  | expired (e : Endpoint) (since : Timestamp) (session : SessionId) (suspended : List (Timestamp × SessionId)) :
    e.suspended = (since, session) :: suspended → e.lapsed since session = true →
    Turn now e
      { e with
        suspended
        sessions := Function.update e.sessions session none
        events := e.events ++ [.sessionExpired session] }
  /-- A queue entry whose session has resumed since. -/
  | skipped (e : Endpoint) (since : Timestamp) (session : SessionId) (suspended : List (Timestamp × SessionId)) :
    e.suspended = (since, session) :: suspended → e.lapsed since session = false → Turn now e { e with suspended }
  | forgot (e : Endpoint) (at_ : Timestamp) (id : TicketId) (redeemedExpiry : List (Timestamp × TicketId)) :
    e.redeemedExpiry = (at_, id) :: redeemedExpiry → at_ < now →
    Turn now e { e with redeemedExpiry, redeemed := Function.update e.redeemed id none }
  | polled (e : Endpoint) : Turn now e { e with events := e.events.tail }

/-- Turn after turn. -/
abbrev Turns (now : Timestamp) : Endpoint → Endpoint → Prop := Relation.ReflTransGen (Turn now)

/-- What every turn keeps, a run of them keeps. -/
theorem Turns.invariant {now : Timestamp} {P : Endpoint → Prop} (hturn : ∀ e e', Turn now e e' → P e → P e')
    {e e' : Endpoint} (h : Turns now e e') (he : P e) : P e' := by
  induction h with
  | refl => exact he
  | tail _ hlast ih => exact hturn _ _ hlast ih

/-- A response this endpoint completes: its cookie opens, its ticket is unspent
and passes. -/
structure Admits (e : Endpoint) (now : Timestamp) (sender : SocketAddr) (datagram : List UInt8) (cookie : Cookie) :
    Prop where
  kind : peekKind datagram = some .response
  owner : ownerShard datagram = some e.shard
  opened : e.openResponse suite now sender datagram = .ok cookie
  unspent : e.redeemed cookie.ticketId = none
  check : e.checkTicket now cookie.ticket = .ok ()

/-- An endpoint after a response was charged for. -/
def paid (e : Endpoint) (now : Timestamp) (sender : SocketAddr) : Endpoint :=
  (e.chargeHandshake now sender .response).1

/-! ### Datagrams -/

theorem deliver_cases (e : Endpoint) (now : Timestamp) (sender : SocketAddr) (datagram : List UInt8) {handle : Handle}
    {conn : Connection Server} (hget : e.connections.get handle = some conn) :
    e.deliver now sender datagram handle conn = (e, .dropped .rejected, []) ∨
      e.deliver now sender datagram handle conn =
        (({ e with
            connections := e.connections.modify handle fun _ => (conn.handleDatagram now sender datagram).1 }.touch
              handle).pumpEvents handle, .routed handle,
          (conn.handleDatagram now sender datagram).2.1.map fun m => (handle, m)) := by
  unfold deliver
  dsimp only
  split
  · exact .inr rfl
  · exact .inr rfl
  next error hbad herror =>
    obtain ⟨hsame, hnone⟩ := Connection.handleDatagram_refused (fun h => hbad h) herror
    refine .inl ?_
    rw [hsame, hnone, Slab.modify_same hget]
    rfl

theorem routePayload_turns (e : Endpoint) (now : Timestamp) (sender : SocketAddr) (datagram : List UInt8) :
    Turns now e (e.routePayload now sender datagram).1 := by
  unfold routePayload
  split
  · exact .refl
  · split
    · exact .refl
    next handle _ =>
      split
      · exact .refl
      next conn hget =>
        rcases e.deliver_cases now sender datagram hget with heq | heq
        · rw [heq]
        · rw [heq]
          exact .single (.received e sender datagram handle conn hget)

theorem chargeHandshake_turn (e : Endpoint) (now : Timestamp) (sender : SocketAddr) (kind : PacketKind) :
    Turn now e (e.chargeHandshake now sender kind).1 := by
  cases kind
  all_goals exact .charged e _ _ _

theorem paid_turn (e : Endpoint) (now : Timestamp) (sender : SocketAddr) : Turn now e (e.paid now sender) :=
  e.chargeHandshake_turn now sender .response

theorem answerSpent_turns (e : Endpoint) (now : Timestamp) (spent : Redeemed) :
    Turns now e (e.answerSpent spent).1 := by
  unfold answerSpent
  split
  next handle _ =>
    split
    · exact .single (.called e handle (.own .resendAcceptance))
    · exact .refl
  · exact .refl

/-- What is so where nothing changed, and after a spent ticket was answered, is
so after a cookie was redeemed, unless that admits a player. -/
theorem redeem_cases {P : Endpoint → Prop} (e : Endpoint) (now : Timestamp) (sender : SocketAddr) (cookie : Cookie)
    (hsame : P e) (hspent : ∀ spent, P (e.answerSpent spent).1) :
    P (e.redeem suite now sender cookie).1 ∨
      e.redeemed cookie.ticketId = none ∧ e.checkTicket now cookie.ticket = .ok () ∧
        e.redeem suite now sender cookie = e.admitPlayer suite now sender cookie := by
  unfold redeem
  split
  next spent _ => exact .inl (hspent spent)
  next hnew =>
    split
    · exact .inl hsame
    next hcheck =>
      split
      · exact .inl hsame
      · exact .inr ⟨hnew, hcheck, rfl⟩

/-- What a response that is taken up was: a cookie for this address, in time. -/
theorem openResponse_ok {e : Endpoint} {now : Timestamp} {sender : SocketAddr} {datagram : List UInt8} {cookie : Cookie}
    (h : e.openResponse suite now sender datagram = .ok cookie) :
    e.acceptor.decryptCookie suite datagram = .ok cookie ∧ cookie.addr = sender ∧
      ¬ cookieLifetime < now.since cookie.issuedAt := by
  unfold openResponse at h
  split at h
  · cases h
  next opened hopen =>
    split at h
    · cases h
    next haddr =>
      split at h
      · cases h
      next htime =>
        cases h
        exact ⟨hopen, not_not.1 haddr, htime⟩

/-- The shard a response that opens is addressed to. -/
theorem openResponse_owner {e : Endpoint} {now : Timestamp} {sender : SocketAddr} {datagram : List UInt8}
    {cookie : Cookie} (hkind : peekKind datagram = some .response)
    (h : e.openResponse suite now sender datagram = .ok cookie) : ownerShard datagram = some cookie.home := by
  obtain ⟨blob, plain, hblob, -, -⟩ := Acceptor.decryptCookie_ok (openResponse_ok suite h).1
  rw [ownerShard_response hkind, hblob]
  rfl

/-- What is so after each thing a datagram can lead to short of an admission is
so after a datagram, unless it admits a player. -/
theorem handleDatagram_cases {P : Endpoint → Prop} (e : Endpoint) (now : Timestamp) (sender : SocketAddr)
    (datagram : List UInt8) (draws : Draws) (hsame : P e) (hrouted : P (e.routePayload now sender datagram).1)
    (hcharged : ∀ kind, P (e.chargeHandshake now sender kind).1)
    (hspent : ∀ spent, P ((e.paid now sender).answerSpent spent).1) :
    P (e.handleDatagram suite now sender datagram draws).1 ∨
      ∃ cookie, e.Admits suite now sender datagram cookie ∧
        e.handleDatagram suite now sender datagram draws =
          (((e.paid now sender).admitPlayer suite now sender cookie).1,
            ((e.paid now sender).admitPlayer suite now sender cookie).2,
            []) := by
  have hdispatch (howner : ∀ owner, ownerShard datagram = some owner → owner = e.shard) :
      P (e.dispatch suite now sender datagram draws).1 ∨
      ∃ cookie, e.Admits suite now sender datagram cookie ∧
        e.dispatch suite now sender datagram draws =
          (((e.paid now sender).admitPlayer suite now sender cookie).1,
            ((e.paid now sender).admitPlayer suite now sender cookie).2,
            []) := by
    unfold dispatch
    split
    · exact .inl hsame
    · exact .inl hrouted
    · refine .inl ?_
      dsimp only
      unfold handleRequest
      dsimp only
      split <;> exact hcharged .request
    next hkind =>
      dsimp only
      unfold handleResponse
      dsimp only
      split
      · split
        · exact .inl (hcharged .response)
        next cookie hopen =>
          rcases (e.paid now sender).redeem_cases suite now sender cookie (hcharged .response) hspent with
            hkeeps | ⟨hnew, hcheck, heq⟩
          · exact .inl hkeeps
          · refine .inr ⟨cookie, ⟨hkind, ?_, hopen, hnew, hcheck⟩, ?_⟩
            · have howned := openResponse_owner suite hkind hopen
              rw [howned, howner _ howned]
            · rw [← heq]
              rfl
      · exact .inl (hcharged .response)
    · exact .inl hsame
  unfold handleDatagram
  split
  next owner howner =>
    split
    · exact .inl hsame
    next heq =>
      refine hdispatch fun owner' h => ?_
      rw [howner] at h
      cases h
      exact not_not.1 heq
  next hnone =>
    refine hdispatch fun owner h => ?_
    rw [hnone] at h
    cases h

/-! ### Timers -/

theorem serviceDue_turns (now : Timestamp) (fuel : Nat) (e : Endpoint) :
    Turns now e (serviceDue now fuel e) := by
  induction fuel generalizing e with
  | zero => exact .refl
  | succ fuel ih =>
    rw [serviceDue]
    split
    next hnone =>
      have hsame : (e.timers.popDue now).1 = e.timers := by
        unfold TimerHeap.popDue at hnone ⊢
        split
        · rfl
        next at_ slot hpeek =>
          rw [hpeek] at hnone
          dsimp only at hnone
          split
          · rfl
          next hdue =>
            rw [if_neg hdue] at hnone
            cases hnone
      rw [hsame]
    next slot hsome => exact .head (.serviced e slot hsome) (ih _)

theorem reap_turns (now : Timestamp) (batch : Nat) (e : Endpoint) : Turns now e (reap now batch e) := by
  induction batch generalizing e with
  | zero => exact .refl
  | succ batch ih =>
    rw [reap]
    split
    · exact .refl
    next handle retiring hretiring => exact .head (.retired e handle retiring hretiring) (ih _)

theorem expireSessions_turns (now : Timestamp) (fuel batch : Nat) (e : Endpoint) :
    Turns now e (expireSessions now fuel batch e) := by
  induction fuel generalizing batch e with
  | zero => exact .refl
  | succ fuel ih =>
    rw [expireSessions]
    split
    · exact .refl
    next since session suspended hsuspended =>
      split
      · split
        next hlapsed => exact .head (.expired e since session suspended hsuspended hlapsed) (ih _ _)
        next hstale => exact .head (.skipped e since session suspended hsuspended (by simpa using hstale)) (ih _ _)
      · exact .refl

theorem forgetExpiredTickets_turns (now : Timestamp) (fuel : Nat) (e : Endpoint) :
    Turns now e (forgetExpiredTickets now fuel e) := by
  induction fuel generalizing e with
  | zero => exact .refl
  | succ fuel ih =>
    rw [forgetExpiredTickets]
    split
    · exact .refl
    next at_ id rest hexpiry =>
      split
      next hpast => exact .head (.forgot e at_ id rest hexpiry hpast) (ih _)
      · exact .refl

theorem passTimers_turns (e : Endpoint) (now : Timestamp) : Turns now e (e.passTimers now) :=
  ((serviceDue_turns now _ e).trans (reap_turns now _ _)).trans (expireSessions_turns now _ _ _)

theorem handleTimeout_turns (e : Endpoint) (now : Timestamp) : Turns now e (e.handleTimeout now) :=
  (e.passTimers_turns now).trans (forgetExpiredTickets_turns now _ _)

/-! ### The rest -/

theorem drainTransmits_turns (now : Timestamp) (slots : List Packet) (e : Endpoint) :
    Turns now e (drainTransmits now slots e).1 := by
  induction slots generalizing e with
  | nil => exact .refl
  | cons slot slots ih =>
    rw [drainTransmits]
    split
    · exact .refl
    next handle ready hready => exact .head (.drained e handle ready slot hready) (ih _)

theorem shutdown_turns (now : Timestamp) (e : Endpoint) : Turns now e e.shutdown := by
  unfold shutdown
  generalize e.connections.handles = handles
  induction handles generalizing e with
  | nil => exact .refl
  | cons handle handles ih => exact .head (.called e handle (.close .serverShutdown)) (ih _)

/-- **A call is a run of turns**, at its own time where it has one, or it is a
response that is charged for and admits a player. -/
theorem after_cases (e : Endpoint) (op : EndpointOp) {now : Timestamp} (htime : ∀ t, op.time = some t → t = now) :
    Turns now e (e.after suite op) ∨
      ∃ sender datagram draws cookie, op = .handleDatagram now sender datagram draws ∧
        e.Admits suite now sender datagram cookie ∧
        e.handleDatagram suite now sender datagram draws =
          (((e.paid now sender).admitPlayer suite now sender cookie).1,
            ((e.paid now sender).admitPlayer suite now sender cookie).2,
            []) := by
  cases op with
  | handleDatagram t sender datagram draws =>
    obtain rfl := htime t rfl
    rcases e.handleDatagram_cases (P := Turns t e) suite t sender datagram draws .refl
        (e.routePayload_turns t sender datagram) (fun kind => .single (e.chargeHandshake_turn t sender kind))
        (fun spent => .head (e.paid_turn t sender) ((e.paid t sender).answerSpent_turns t spent)) with
      h | ⟨cookie, hadmits, heq⟩
    · exact .inl h
    · exact .inr ⟨sender, datagram, draws, cookie, rfl, hadmits, heq⟩
  | handleTimeout t =>
    obtain rfl := htime t rfl
    exact .inl (e.handleTimeout_turns t)
  | drainTransmits t slots =>
    obtain rfl := htime t rfl
    exact .inl (drainTransmits_turns t slots e)
  | connectionMut handle call => exact .inl (.single (.called e handle call))
  | issueResumeTicket t handle ticket draw =>
    refine .inl ?_
    show Turns now e (e.issueResumeTicket suite t handle ticket draw).1
    unfold issueResumeTicket
    split
    · exact .refl
    next stored _ =>
      split
      · exact .single (.called e handle (.own (.sendResumeTicket stored)))
      · exact .refl
  | shutdown => exact .inl (shutdown_turns now e)
  | pollEvent => exact .inl (.single (.polled e))

/-- What turns and admissions keep, calls keep, whenever they are made. -/
theorem after_keeps {P : Endpoint → Prop} (hturn : ∀ now e e', Turn now e e' → P e → P e')
    (hadmitted : ∀ now sender datagram cookie (e : Endpoint), e.Admits suite now sender datagram cookie →
      P (e.paid now sender) →
      P ((e.paid now sender).admitPlayer suite now sender cookie).1) (e : Endpoint) (op : EndpointOp) (h : P e) :
    P (e.after suite op) := by
  obtain ⟨now, hnow⟩ := op.exists_time
  rcases e.after_cases suite op hnow with hturns | ⟨sender, datagram, draws, cookie, hop, hadmits, heq⟩
  · exact hturns.invariant (hturn _) h
  · rw [hop, after, heq]
    exact hadmitted now sender datagram cookie e hadmits (hturn now _ _ (e.paid_turn now sender) h)

end Endpoint
end HexNet
