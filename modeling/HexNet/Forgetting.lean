/-
Forgetting spent tickets. Beside an endpoint runs one that is given the same
calls and never removes an entry from `redeemed`. While no datagram is handled
at a time before one that tickets were already forgotten at, no ticket is
redeemed twice, and the two differ in that record alone as long as no forgotten
ticket is presented for a connection still live (`forgetting_invisible`). A
datagram handled at an earlier time can redeem a forgotten ticket again
(`redeemed_twice`).
-/
import HexNet.Tickets

namespace HexNet
namespace Endpoint

variable {suite : Suite} {e s : Endpoint} {now : Timestamp} {dead : TicketId → Prop}

/-- The endpoint with another record of spent tickets. -/
def recorded (e : Endpoint) (redeemed : TicketId → Option Redeemed) (redeemedExpiry : List (Timestamp × TicketId)) :
    Endpoint :=
  { e with redeemed, redeemedExpiry }

/-- `F` neither reads nor writes the record of spent tickets. -/
def Blind (F : Endpoint → Endpoint) : Prop := ∀ e r x, F (e.recorded r x) = (F e).recorded r x

theorem Blind.comp {F G : Endpoint → Endpoint} (hG : Blind G) (hF : Blind F) : Blind (G ∘ F) := fun e r x => by
  rw [Function.comp, Function.comp, hF, hG]

/-- The same endpoint, but that `s` may have on record what `e` has forgotten:
tickets that are `dead`. -/
def Alike (dead : TicketId → Prop) (e s : Endpoint) : Prop :=
  ∃ r x, s = e.recorded r x ∧ ∀ id, r id = e.redeemed id ∨ e.redeemed id = none ∧ dead id

theorem Alike.refl (e : Endpoint) : Alike dead e e := ⟨e.redeemed, e.redeemedExpiry, rfl, fun _ => .inl rfl⟩

theorem Alike.mono {dead' : TicketId → Prop} (h : Alike dead e s) (hdead : ∀ id, dead id → dead' id) :
    Alike dead' e s := by
  obtain ⟨r, x, heq, hrecord⟩ := h
  exact ⟨r, x, heq, fun id => (hrecord id).imp (fun h => h) fun h => ⟨h.1, hdead id h.2⟩⟩

theorem Alike.map {F : Endpoint → Endpoint} (h : Alike dead e s) (hF : Blind F) : Alike dead (F e) (F s) := by
  obtain ⟨r, x, rfl, hrecord⟩ := h
  have hsame : (F e).redeemed = e.redeemed := by
    have hown := congrArg Endpoint.redeemed (hF e e.redeemed e.redeemedExpiry)
    exact hown
  exact ⟨r, x, hF e r x, fun id => by rw [hsame]; exact hrecord id⟩

theorem Alike.connections_eq (h : Alike dead e s) : s.connections = e.connections := by
  obtain ⟨r, x, rfl, -⟩ := h
  rfl

/-! ## What is blind to spent tickets -/

theorem touch_blind (handle : Handle) : Blind (·.touch handle) := by
  intro e r x
  show touch (e.recorded r x) handle = (touch e handle).recorded r x
  unfold touch
  dsimp only [recorded]
  by_cases hready : (e.schedules handle.index).ready = true
  · rw [if_pos hready, if_pos hready]
  · rw [if_neg hready, if_neg hready]

theorem connectionMut_blind (handle : Handle) (f : Connection Server → Connection Server) :
    Blind (·.connectionMut handle f) := by
  intro e r x
  show connectionMut (e.recorded r x) handle f = (connectionMut e handle f).recorded r x
  have htouch : touch (e.recorded r x) handle = (touch e handle).recorded r x := touch_blind handle e r x
  have hsame : (e.recorded r x).connections = e.connections := rfl
  unfold connectionMut
  rw [htouch, hsame]
  by_cases hlive : e.connections.contains handle = true
  · rw [if_pos hlive, if_pos hlive]
    rfl
  · rw [if_neg hlive, if_neg hlive]

theorem pumpEvents_blind (handle : Handle) : Blind (·.pumpEvents handle) := by
  intro e r x
  show pumpEvents (e.recorded r x) handle = (pumpEvents e handle).recorded r x
  have hsame : (e.recorded r x).connections = e.connections := rfl
  unfold pumpEvents
  rw [hsame]
  cases e.connections.get handle <;> rfl

theorem rearm_blind (handle : Handle) (deadline : Option Timestamp) : Blind (·.rearm handle deadline) := by
  intro e r x
  cases deadline with
  | some at_ => rfl
  | none =>
    show rearm (e.recorded r x) handle none = (rearm e handle none).recorded r x
    unfold rearm
    dsimp only [recorded]
    by_cases hretiring : (e.schedules handle.index).retiring = true
    · rw [if_pos hretiring, if_pos hretiring]
    · rw [if_neg hretiring, if_neg hretiring]

theorem detach_blind (handle : Handle) (session : SessionId) (reason : CloseReason) :
    Blind (·.detach handle session reason now) := by
  intro e r x
  show detach (e.recorded r x) handle session reason now = (detach e handle session reason now).recorded r x
  have hsame : (e.recorded r x).sessions = e.sessions := rfl
  unfold detach
  rw [hsame]
  cases e.sessions session with
  | none => rfl
  | some record =>
    dsimp only
    by_cases hlive : record.state = .live handle
    · rw [if_pos hlive, if_pos hlive]
      cases departs reason <;> rfl
    · rw [if_neg hlive, if_neg hlive]
      rfl

theorem takeOver_blind (session : SessionId) : Blind (·.takeOver session) := by
  intro e r x
  show takeOver (e.recorded r x) session = (takeOver e session).recorded r x
  have hsame : (e.recorded r x).sessions = e.sessions := rfl
  unfold takeOver
  rw [hsame]
  split
  · exact connectionMut_blind _ _ e r x
  · rfl
  · rfl

theorem drainOne_blind (handle : Handle) (slot : Packet) : Blind fun e => (e.drainOne now handle slot).1 := by
  intro e r x
  show (drainOne (e.recorded r x) now handle slot).1 = (drainOne e now handle slot).1.recorded r x
  have hsame : (e.recorded r x).connections = e.connections := rfl
  unfold drainOne
  rw [hsame]
  cases e.connections.get handle with
  | none => rfl
  | some conn =>
    exact rearm_blind handle (conn.pollTransmit now slot).1.nextTimeout
      { e with
        schedules := Function.update e.schedules handle.index { e.schedules handle.index with ready := false }
        connections := e.connections.modify handle fun _ => (conn.pollTransmit now slot).1 } r x

theorem drainTransmits_blind (slots : List Packet) : Blind fun e => (drainTransmits now slots e).1 := by
  intro e r x
  induction slots generalizing e with
  | nil => rfl
  | cons slot slots ih =>
    have hsame : (e.recorded r x).ready = e.ready := rfl
    dsimp only at ih ⊢
    rw [drainTransmits, drainTransmits, hsame]
    cases e.ready with
    | nil => rfl
    | cons handle ready =>
      dsimp only
      rw [← ih, ← drainOne_blind handle slot { e with ready } r x]
      rfl

theorem service_blind (slot : Nat) : Blind (·.service now slot) := by
  intro e r x
  show service (e.recorded r x) now slot = (service e now slot).recorded r x
  have hsame : (e.recorded r x).connections = e.connections := rfl
  unfold service
  rw [hsame]
  cases e.connections.handleAt slot with
  | none => rfl
  | some handle =>
    exact (pumpEvents_blind handle).comp (touch_blind handle)
      { e with connections := e.connections.modify handle (·.handleTimeout now) } r x

theorem serviceDue_blind (now : Timestamp) (fuel : Nat) : Blind (serviceDue now fuel) := by
  intro e r x
  induction fuel generalizing e with
  | zero => rfl
  | succ fuel ih =>
    have hsame : (e.recorded r x).timers = e.timers := rfl
    rw [serviceDue, serviceDue, hsame]
    cases (e.timers.popDue now).2 with
    | none => rfl
    | some slot =>
      dsimp only
      rw [← ih, ← service_blind slot _ r x]
      rfl

theorem expireSessions_blind (fuel batch : Nat) : Blind (expireSessions now fuel batch) := by
  intro e r x
  induction fuel generalizing batch e with
  | zero => rfl
  | succ fuel ih =>
    have hsame : (e.recorded r x).suspended = e.suspended := rfl
    rw [expireSessions, expireSessions, hsame]
    cases e.suspended with
    | nil => rfl
    | cons entry suspended =>
      have hlapsed : (e.recorded r x).lapsed entry.1 entry.2 = e.lapsed entry.1 entry.2 := rfl
      dsimp only
      rw [hlapsed]
      split
      · split
        · exact ih (batch - 1)
            { e with
              suspended
              sessions := Function.update e.sessions entry.2 none
              events := e.events ++ [.sessionExpired entry.2] }
        · exact ih batch { e with suspended }
      · rfl

theorem shutdown_blind : Blind shutdown := by
  intro e r x
  have hsame : (e.recorded r x).connections = e.connections := rfl
  unfold shutdown
  rw [hsame]
  clear hsame
  generalize e.connections.handles = handles
  induction handles generalizing e with
  | nil => rfl
  | cons handle handles ih =>
    have hcalled : connectionMut (e.recorded r x) handle (·.close .serverShutdown) =
        (connectionMut e handle (·.close .serverShutdown)).recorded r x := connectionMut_blind handle _ e r x
    rw [List.foldl_cons, List.foldl_cons, ← ih, hcalled]

/-! ## What is not -/

/-- A removal closes the retry path in both records. -/
theorem Alike.removed (h : Alike dead e s) (handle : Handle) (ticket : TicketId) :
    Alike dead (e.removed handle ticket) (s.removed handle ticket) := by
  obtain ⟨r, x, rfl, hrecord⟩ := h
  refine ⟨((e.recorded r x).removed handle ticket).redeemed, x, rfl, fun id => ?_⟩
  rw [removed_redeemed, removed_redeemed]
  refine (hrecord id).imp (fun hsame => ?_) fun hdead => ⟨?_, hdead.2⟩
  · rw [show (e.recorded r x).redeemed id = e.redeemed id from hsame]
  · rw [hdead.1]
    split <;> rfl

theorem Alike.retire (h : Alike dead e s) (handle : Handle) : Alike dead (e.retire handle now) (s.retire handle now) := by
  have hpumped := h.map (pumpEvents_blind handle)
  have hsame : (s.pumpEvents handle).schedules = (e.pumpEvents handle).schedules := by
    obtain ⟨r, x, heq, -⟩ := hpumped
    rw [heq]
    rfl
  unfold Endpoint.retire
  dsimp only
  rw [hsame, hpumped.connections_eq]
  cases (e.pumpEvents handle).connections.get handle with
  | none => exact hpumped
  | some conn => exact (hpumped.removed handle conn.role.ticket).map (detach_blind handle conn.role.session _)

theorem Alike.reap (h : Alike dead e s) (now : Timestamp) (batch : Nat) :
    Alike dead (reap now batch e) (reap now batch s) := by
  induction batch generalizing e s with
  | zero => exact h
  | succ batch ih =>
    have hsame : s.retiring = e.retiring := by
      obtain ⟨r, x, rfl, -⟩ := h
      rfl
    rw [Endpoint.reap, Endpoint.reap, hsame]
    cases e.retiring with
    | nil => exact h
    | cons handle retiring => exact ih ((h.map (F := fun e => { e with retiring }) fun _ _ _ => rfl).retire handle)

theorem Alike.passTimers (h : Alike dead e s) (now : Timestamp) : Alike dead (e.passTimers now) (s.passTimers now) := by
  have htimers : s.timers = e.timers := by
    obtain ⟨r, x, rfl, -⟩ := h
    rfl
  have hreaped := (h.map (serviceDue_blind now e.timers.entries.length)).reap now reapBatch
  unfold Endpoint.passTimers
  dsimp only
  rw [htimers]
  have hsuspended : (Endpoint.reap now reapBatch (serviceDue now e.timers.entries.length s)).suspended =
      (Endpoint.reap now reapBatch (serviceDue now e.timers.entries.length e)).suspended := by
    obtain ⟨r, x, heq, -⟩ := hreaped
    rw [heq]
    rfl
  rw [hsuspended]
  exact hreaped.map (expireSessions_blind _ _)

/-- Forgetting leaves the endpoint like one that did not, where what is
forgotten counts as dead. -/
theorem Alike.forget (h : Alike dead e s) (fuel : Nat)
    (hdead : ∀ entry ∈ e.redeemedExpiry, entry.1 < now → dead entry.2) :
    Alike dead (forgetExpiredTickets now fuel e) s := by
  induction fuel generalizing e with
  | zero => exact h
  | succ fuel ih =>
    rw [forgetExpiredTickets]
    split
    · exact h
    next at_ id rest hexpiry =>
      split
      next hpast =>
        refine ih ?_ fun entry hmem => hdead entry (by rw [hexpiry]; exact List.mem_cons_of_mem _ hmem)
        obtain ⟨r, x, rfl, hrecord⟩ := h
        refine ⟨r, x, rfl, fun id' => ?_⟩
        by_cases heq : id' = id
        · subst heq
          exact .inr ⟨Function.update_self .., hdead (at_, id') (by rw [hexpiry]; exact List.mem_cons_self) hpast⟩
        · dsimp only
          rw [Function.update_of_ne heq]
          exact hrecord id'
      · exact h

theorem Alike.settled (h : Alike dead e s) (cookie : Cookie) (session : SessionId) (resumed : Bool) (handle : Handle) :
    Alike dead (e.settled cookie session resumed handle) (s.settled cookie session resumed handle) := by
  have htouched : Alike dead ({ e with schedules := Function.update e.schedules handle.index .default }.touch handle)
      ({ s with schedules := Function.update s.schedules handle.index .default }.touch handle) :=
    (h.map (F := fun e => { e with schedules := Function.update e.schedules handle.index .default })
      fun _ _ _ => rfl).map (touch_blind handle)
  unfold Endpoint.settled
  dsimp only
  generalize touch { e with schedules := Function.update e.schedules handle.index .default } handle = e₁ at htouched
  generalize touch { s with schedules := Function.update s.schedules handle.index .default } handle = s₁ at htouched
  obtain ⟨r, x, rfl, hrecord⟩ := htouched
  refine ⟨_, _, rfl, fun id => ?_⟩
  dsimp only [recorded]
  by_cases heq : id = cookie.ticketId
  · rw [heq, Function.update_self, Function.update_self]
    exact .inl rfl
  · rw [Function.update_of_ne heq, Function.update_of_ne heq]
    exact hrecord id

theorem Alike.admitPlayer (h : Alike dead e s) (suite : Suite) (now : Timestamp) (sender : SocketAddr) (cookie : Cookie) :
    Alike dead (e.admitPlayer suite now sender cookie).1 (s.admitPlayer suite now sender cookie).1 := by
  have hsession : (s.openSession cookie).2 = (e.openSession cookie).2 := by
    obtain ⟨r, x, rfl, -⟩ := h
    unfold openSession
    cases cookie.ticket.session <;> rfl
  have hopened : Alike dead (e.openSession cookie).1 (s.openSession cookie).1 :=
    h.map (F := fun e => (e.openSession cookie).1) fun e r x => by
      dsimp only [openSession]
      cases cookie.ticket.session <;> rfl
  have htaken := hopened.map (takeOver_blind (e.openSession cookie).2.1)
  unfold Endpoint.admitPlayer
  dsimp only
  rw [hsession]
  generalize (e.openSession cookie).1.takeOver (e.openSession cookie).2.1 = e₁ at htaken ⊢
  generalize (s.openSession cookie).1.takeOver (e.openSession cookie).2.1 = s₁ at htaken ⊢
  have hinserted : s₁.connections.insertWith (s₁.accepted suite now sender cookie (e.openSession cookie).2.1) =
      e₁.connections.insertWith (e₁.accepted suite now sender cookie (e.openSession cookie).2.1) := by
    obtain ⟨r, x, rfl, -⟩ := htaken
    rfl
  rw [hinserted]
  generalize e₁.connections.insertWith (e₁.accepted suite now sender cookie (e.openSession cookie).2.1) = inserted
  have hfilled := htaken.map (F := fun e => { e with connections := inserted.1 }) fun _ _ _ => rfl
  cases inserted.2 with
  | none => exact hfilled
  | some handle => exact hfilled.settled cookie _ _ handle

/-! ## Datagrams -/

theorem routePayload_blind (now : Timestamp) (sender : SocketAddr) (datagram : List UInt8) :
    Blind fun e => (e.routePayload now sender datagram).1 := by
  intro e r x
  show (routePayload (e.recorded r x) now sender datagram).1 = (routePayload e now sender datagram).1.recorded r x
  have hconns : (e.recorded r x).connections = e.connections := rfl
  have hids : (e.recorded r x).connIdOf = e.connIdOf := rfl
  unfold routePayload
  rw [hconns, hids]
  split
  · rfl
  · split
    · rfl
    next handle _ =>
      split
      · rfl
      next conn _ =>
        unfold deliver
        dsimp only
        have hpumped := (pumpEvents_blind handle).comp (touch_blind handle)
          { e with connections := e.connections.modify handle fun _ => (conn.handleDatagram now sender datagram).1 } r x
        split
        · exact hpumped
        · exact hpumped
        · rfl

theorem chargeHandshake_blind (now : Timestamp) (sender : SocketAddr) (kind : PacketKind) :
    Blind fun e => (e.chargeHandshake now sender kind).1 := by
  intro e r x
  cases kind <;> rfl

theorem handleRequest_fst (suite : Suite) (e : Endpoint) (now : Timestamp) (sender : SocketAddr) (datagram : List UInt8)
    (draws : Draws) : (e.handleRequest suite now sender datagram draws).1 = (e.chargeHandshake now sender .request).1 := by
  unfold handleRequest
  dsimp only
  split <;> rfl

theorem answerSpent_blind (spent : Redeemed) : Blind fun e => (e.answerSpent spent).1 := by
  intro e r x
  show (answerSpent (e.recorded r x) spent).1 = (answerSpent e spent).1.recorded r x
  have hsame : (e.recorded r x).connections = e.connections := rfl
  unfold answerSpent
  rw [hsame]
  cases spent.connection with
  | none => rfl
  | some handle =>
    dsimp only
    by_cases hlive : e.connections.contains handle = true
    · rw [if_pos hlive, if_pos hlive]
      exact connectionMut_blind handle (·.resendAcceptance) e r x
    · rw [if_neg hlive, if_neg hlive]

theorem issueResumeTicket_blind (suite : Suite) (now : Timestamp) (handle : Handle) (ticket : Ticket)
    (draw : Option BlobNonce) : Blind fun e => (e.issueResumeTicket suite now handle ticket draw).1 := by
  intro e r x
  have hconns : (e.recorded r x).connections = e.connections := rfl
  have hacceptor : (e.recorded r x).acceptor = e.acceptor := rfl
  dsimp only
  unfold issueResumeTicket
  rw [hconns, hacceptor]
  split
  · rfl
  next stored _ =>
    by_cases hlive : e.connections.contains handle = true
    · rw [if_pos hlive, if_pos hlive]
      exact connectionMut_blind handle (·.sendResumeTicket stored) e r x
    · rw [if_neg hlive, if_neg hlive]

/-- A record that no longer gets an answer. -/
theorem answerSpent_gone {spent : Redeemed}
    (h : ∀ handle, spent.connection = some handle → e.connections.contains handle = false) :
    (e.answerSpent spent).1 = e := by
  unfold answerSpent
  split
  next handle hspent => rw [h handle hspent]; rfl
  · rfl

/-- A dead ticket is refused by both: as expired, and as spent. -/
theorem Alike.redeem (h : Alike dead e s) (sender : SocketAddr) (cookie : Cookie)
    (hdead : dead cookie.ticketId → cookie.ticket.expiresAt < now)
    (hgone : ∀ handle, e.redeemed cookie.ticketId = none → s.redeemed cookie.ticketId = some ⟨some handle⟩ →
      e.connections.contains handle = false) :
    Alike dead (e.redeem suite now sender cookie).1 (s.redeem suite now sender cookie).1 := by
  have hcheck : s.checkTicket now cookie.ticket = e.checkTicket now cookie.ticket := by
    obtain ⟨r, x, rfl, -⟩ := h
    rfl
  have hadmitted := h.admitPlayer suite now sender cookie
  have hconns := h.connections_eq
  have hrecord : s.redeemed cookie.ticketId = e.redeemed cookie.ticketId ∨
      e.redeemed cookie.ticketId = none ∧ dead cookie.ticketId := by
    obtain ⟨r, x, rfl, hrecord⟩ := h
    exact hrecord cookie.ticketId
  rcases hrecord with hsame | ⟨hnone, hexpired⟩
  · unfold Endpoint.redeem
    rw [hsame, hcheck, hconns]
    split
    next spent _ => exact h.map (answerSpent_blind spent)
    · split
      · exact h
      · split
        · exact h
        · exact hadmitted
  · have hdrop : (e.redeem suite now sender cookie).1 = e := by
      unfold Endpoint.redeem
      rw [hnone, checkTicket_expired (hdead hexpired)]
    have hkept : (s.redeem suite now sender cookie).1 = s := by
      unfold Endpoint.redeem
      rw [hcheck, checkTicket_expired (hdead hexpired)]
      split
      next spent hspent =>
        refine answerSpent_gone fun handle hhandle => ?_
        rw [hconns]
        refine hgone handle hnone ?_
        rw [hspent]
        cases spent
        cases hhandle
        rfl
      · rfl
    rw [hdrop, hkept]
    exact h

theorem Alike.handleDatagram (h : Alike dead e s) (sender : SocketAddr) (datagram : List UInt8) (draws : Draws)
    (hdead : ∀ cookie, e.acceptor.decryptCookie suite datagram = .ok cookie → dead cookie.ticketId →
      cookie.ticket.expiresAt < now)
    (hgone : ∀ cookie handle, e.acceptor.decryptCookie suite datagram = .ok cookie →
      e.redeemed cookie.ticketId = none → s.redeemed cookie.ticketId = some ⟨some handle⟩ →
      e.connections.contains handle = false) :
    Alike dead (e.handleDatagram suite now sender datagram draws).1
      (s.handleDatagram suite now sender datagram draws).1 := by
  have hresponse : Alike dead (e.handleResponse suite now sender datagram).1
      (s.handleResponse suite now sender datagram).1 := by
    have hcharged := h.map (chargeHandshake_blind now sender .response)
    have hpaid : (s.chargeHandshake now sender .response).2 = (e.chargeHandshake now sender .response).2 := by
      obtain ⟨r, x, rfl, -⟩ := h
      rfl
    have hopen : (s.chargeHandshake now sender .response).1.openResponse suite now sender datagram =
        (e.chargeHandshake now sender .response).1.openResponse suite now sender datagram := by
      obtain ⟨r, x, rfl, -⟩ := h
      rfl
    unfold Endpoint.handleResponse
    dsimp only
    rw [hpaid, hopen]
    split
    · split
      · exact hcharged
      next cookie hopened =>
        have hcookie := (openResponse_ok suite hopened).1
        exact hcharged.redeem sender cookie (hdead cookie hcookie) fun handle => hgone cookie handle hcookie
    · exact hcharged
  have hdispatch : Alike dead (e.dispatch suite now sender datagram draws).1
      (s.dispatch suite now sender datagram draws).1 := by
    unfold Endpoint.dispatch
    split
    · exact h
    · exact h.map (routePayload_blind now sender datagram)
    · dsimp only
      rw [handleRequest_fst, handleRequest_fst]
      exact h.map (chargeHandshake_blind now sender .request)
    · exact hresponse
    · exact h
  have hshard : s.shard = e.shard := by
    obtain ⟨r, x, rfl, -⟩ := h
    rfl
  unfold Endpoint.handleDatagram
  rw [hshard]
  split
  · split
    · exact h
    · exact hdispatch
  · exact hdispatch

/-! ## What stays on record -/

/-- The same tickets are on record, and are due to be forgotten at the same times. -/
def Remembers (e e' : Endpoint) : Prop :=
  e'.redeemedExpiry = e.redeemedExpiry ∧ ∀ id, e'.redeemed id = none ↔ e.redeemed id = none

theorem Remembers.refl (e : Endpoint) : Remembers e e := ⟨rfl, fun _ => Iff.rfl⟩

theorem Remembers.trans {e₁ e₂ e₃ : Endpoint} (h : Remembers e₁ e₂) (h' : Remembers e₂ e₃) : Remembers e₁ e₃ :=
  ⟨h'.1.trans h.1, fun id => (h'.2 id).trans (h.2 id)⟩

theorem Blind.remembers {F : Endpoint → Endpoint} (hF : Blind F) (e : Endpoint) : Remembers e (F e) := by
  have hown : F e = (F e).recorded e.redeemed e.redeemedExpiry := hF e e.redeemed e.redeemedExpiry
  rw [hown]
  exact ⟨rfl, fun _ => Iff.rfl⟩

theorem retire_remembers (e : Endpoint) (handle : Handle) (now : Timestamp) : Remembers e (e.retire handle now) := by
  have hpumped := (pumpEvents_blind handle).remembers e
  unfold retire
  dsimp only
  split
  · exact hpumped
  next conn _ =>
    have hremoved : Remembers (e.pumpEvents handle) ((e.pumpEvents handle).removed handle conn.role.ticket) := by
      refine ⟨rfl, fun id => ?_⟩
      rw [removed_redeemed]
      split
      · exact Option.map_eq_none_iff
      · rfl
    exact (hpumped.trans hremoved).trans ((detach_blind handle conn.role.session _).remembers _)

theorem reap_remembers (now : Timestamp) (batch : Nat) (e : Endpoint) : Remembers e (reap now batch e) := by
  induction batch generalizing e with
  | zero => exact .refl e
  | succ batch ih =>
    rw [reap]
    split
    · exact .refl e
    next handle retiring _ => exact (retire_remembers { e with retiring } handle now).trans (ih _)

theorem passTimers_remembers (e : Endpoint) (now : Timestamp) : Remembers e (e.passTimers now) :=
  (((serviceDue_blind now _).remembers e).trans (reap_remembers now _ _)).trans
    ((expireSessions_blind _ _).remembers _)

/-- A ticket goes off the record only when it is forgotten. -/
theorem forget_redeemed (now : Timestamp) (fuel : Nat) (e : Endpoint) :
    (∀ entry ∈ (forgetExpiredTickets now fuel e).redeemedExpiry, entry ∈ e.redeemedExpiry) ∧
    ∀ id, (forgetExpiredTickets now fuel e).redeemed id = none →
      e.redeemed id = none ∨ ∃ at_, (at_, id) ∈ e.redeemedExpiry ∧ at_ < now := by
  induction fuel generalizing e with
  | zero => exact ⟨fun _ h => h, fun _ h => .inl h⟩
  | succ fuel ih =>
    rw [forgetExpiredTickets]
    split
    · exact ⟨fun _ h => h, fun _ h => .inl h⟩
    next at_ id rest hexpiry =>
      split
      next hpast =>
        obtain ⟨hentries, hrecord⟩ := ih { e with
          redeemedExpiry := rest, redeemed := Function.update e.redeemed id none }
        refine ⟨fun entry hmem => by rw [hexpiry]; exact List.mem_cons_of_mem _ (hentries entry hmem), fun id' hnone => ?_⟩
        rcases hrecord id' hnone with hnone | ⟨at', hmem, hlt⟩
        · by_cases heq : id' = id
          · subst heq
            exact .inr ⟨at_, by rw [hexpiry]; exact List.mem_cons_self, hpast⟩
          · dsimp only at hnone
            rw [Function.update_of_ne heq] at hnone
            exact .inl hnone
        · exact .inr ⟨at', by rw [hexpiry]; exact List.mem_cons_of_mem _ hmem, hlt⟩
      · exact ⟨fun _ h => h, fun _ h => .inl h⟩

/-- A call that is not `handleTimeout` forgets nothing: it leaves the record
and makes no connection, or it is a response that admits a player. -/
theorem after_remembers (suite : Suite) (hs : e.connections.Sound) (op : EndpointOp)
    (hop : ∀ now, op ≠ .handleTimeout now) :
    (Remembers e (e.after suite op) ∧
        ∀ handle, e.connections.get handle = none → (e.after suite op).connections.get handle = none) ∨
      ∃ now sender datagram draws cookie, op = .handleDatagram now sender datagram draws ∧
        e.Admits suite now sender datagram cookie ∧
        e.after suite op = ((e.paid now sender).admitPlayer suite now sender cookie).1 := by
  have hborn (hnot : ∀ now sender datagram draws, op ≠ .handleDatagram now sender datagram draws) :
      ∀ handle, e.connections.get handle = none → (e.after suite op).connections.get handle = none := by
    intro handle hnone
    by_contra hsome
    obtain ⟨conn, hget⟩ := Option.ne_none_iff_exists'.1 hsome
    obtain ⟨now, sender, datagram, draws, _, _, heq, -⟩ := after_born suite hs hget hnone
    exact hnot now sender datagram draws heq
  cases op with
  | handleTimeout now => exact (hop now rfl).elim
  | drainTransmits now slots => exact .inl ⟨(drainTransmits_blind slots).remembers e, hborn nofun⟩
  | connectionMut handle call => exact .inl ⟨(connectionMut_blind handle _).remembers e, hborn nofun⟩
  | shutdown => exact .inl ⟨shutdown_blind.remembers e, hborn nofun⟩
  | pollEvent => exact .inl ⟨.refl e, hborn nofun⟩
  | issueResumeTicket now handle ticket draw =>
    exact .inl ⟨(issueResumeTicket_blind suite now handle ticket draw).remembers e, hborn nofun⟩
  | handleDatagram now sender datagram draws =>
    rcases e.handleDatagram_cases (P := fun e' => Remembers e e' ∧ Turns now e e') suite now sender datagram draws
        ⟨.refl e, .refl⟩
        ⟨(routePayload_blind now sender datagram).remembers e, e.routePayload_turns now sender datagram⟩
        (fun kind => ⟨(chargeHandshake_blind now sender kind).remembers e,
          .single (e.chargeHandshake_turn now sender kind)⟩)
        (fun spent => ⟨((answerSpent_blind spent).comp (chargeHandshake_blind now sender .response)).remembers e,
          .head (e.paid_turn now sender) ((e.paid now sender).answerSpent_turns now spent)⟩) with
      ⟨hkept, hturns⟩ | ⟨cookie, hadmits, heq⟩
    · refine .inl ⟨hkept, fun handle hnone => ?_⟩
      by_contra hsome
      obtain ⟨conn, hget⟩ := Option.ne_none_iff_exists'.1 hsome
      obtain ⟨c, hc, -⟩ := hturns.get_some hs hget
      rw [hnone] at hc
      cases hc
    · exact .inr ⟨now, sender, datagram, draws, cookie, rfl, hadmits, by rw [after, heq]⟩

/-- The endpoints stay alike, where a dead ticket is presented too late and
its connection, if on record, is gone. -/
theorem Alike.after (h : Alike dead e s) (suite : Suite) (op : EndpointOp) (hop : ∀ now, op ≠ .handleTimeout now)
    (hdead : ∀ now sender datagram draws cookie, op = .handleDatagram now sender datagram draws →
      e.acceptor.decryptCookie suite datagram = .ok cookie → dead cookie.ticketId → cookie.ticket.expiresAt < now)
    (hgone : ∀ now sender datagram draws cookie handle, op = .handleDatagram now sender datagram draws →
      e.acceptor.decryptCookie suite datagram = .ok cookie → e.redeemed cookie.ticketId = none →
      s.redeemed cookie.ticketId = some ⟨some handle⟩ → e.connections.contains handle = false) :
    Alike dead (e.after suite op) (s.after suite op) := by
  cases op with
  | handleTimeout now => exact (hop now rfl).elim
  | drainTransmits now slots => exact h.map (drainTransmits_blind slots)
  | connectionMut handle call => exact h.map (connectionMut_blind handle _)
  | shutdown => exact h.map shutdown_blind
  | pollEvent => exact h.map (F := fun e => e.pollEvent.1) fun _ _ _ => rfl
  | issueResumeTicket now handle ticket draw =>
    have hissued := h.map (issueResumeTicket_blind suite now handle ticket draw)
    exact hissued
  | handleDatagram now sender datagram draws =>
    exact h.handleDatagram sender datagram draws (fun cookie => hdead now sender datagram draws cookie rfl)
      fun cookie handle => hgone now sender datagram draws cookie handle rfl

/-- What a call leaves of an endpoint that forgets no ticket. -/
def afterKeeping (suite : Suite) (e : Endpoint) : EndpointOp → Endpoint
  | .handleTimeout now => e.passTimers now
  | op => e.after suite op

end Endpoint

/-! ## Two endpoints, given the same calls -/

/-- An endpoint, and one that removes nothing from `redeemed`. -/
structure Twin where
  forgetting : Endpoint
  keeping : Endpoint
  /-- The times `handleTimeout` was given. -/
  ticks : List Timestamp
  /-- The connections each has made. -/
  made : List Birth
  keptMade : List Birth

namespace Twin

variable {suite : Suite} {expiry : TicketId → Timestamp} {t : Twin}

def after (suite : Suite) (t : Twin) (op : EndpointOp) : Twin :=
  let e := t.forgetting.after suite op
  let s := t.keeping.afterKeeping suite op
  { forgetting := e
    keeping := s
    ticks := t.ticks ++ match op with | .handleTimeout now => [now] | _ => []
    made := t.made ++ Group.birthsOf t.forgetting.shard t.forgetting.connections e.connections
    keptMade := t.keptMade ++ Group.birthsOf t.keeping.shard t.keeping.connections s.connections }

def new (e : Endpoint) : Twin := ⟨e, e, [], [], []⟩

/-- The runs of the two. A datagram's time may come before any tick. -/
def sys (suite : Suite) : Lts.Sys Twin EndpointOp where
  start t := ∃ config backendKey channels hasher, t = .new (.new config backendKey channels hasher)
  step t op t' := t' = t.after suite op

/-- A ticket's id names one ticket, which expires when `expiry` says: it is the
nonce the ticket was sealed under. -/
def Named (suite : Suite) (expiry : TicketId → Timestamp) (t : Twin) : EndpointOp → Prop
  | .handleDatagram _ _ datagram _ => ∀ cookie, t.forgetting.acceptor.decryptCookie suite datagram = .ok cookie →
    cookie.ticket.expiresAt = expiry cookie.ticketId
  | _ => True

/-- No datagram is handled at a time before a tick there has been. -/
def InOrder (t : Twin) : EndpointOp → Prop
  | .handleDatagram now _ _ _ => ∀ tick ∈ t.ticks, tick ≤ now
  | _ => True

/-- No forgotten ticket is presented while its connection lives: the endpoint
that has it on record would send the acceptance again. -/
def Unanswered (suite : Suite) (t : Twin) : EndpointOp → Prop
  | .handleDatagram _ _ datagram _ => ∀ cookie handle,
    t.forgetting.acceptor.decryptCookie suite datagram = .ok cookie → t.forgetting.redeemed cookie.ticketId = none →
    t.keeping.redeemed cookie.ticketId = some ⟨some handle⟩ → t.forgetting.connections.contains handle = false
  | _ => True

/-- Past its expiry at some tick. -/
def Dead (expiry : TicketId → Timestamp) (t : Twin) (id : TicketId) : Prop := ∃ tick ∈ t.ticks, expiry id < tick

/-- Where datagrams are in order, a dead ticket is presented after its expiry. -/
theorem dead_expired {now : Timestamp} {sender : SocketAddr} {datagram : List UInt8} {draws : Endpoint.Draws}
    (hnamed : t.Named suite expiry (.handleDatagram now sender datagram draws))
    (horder : t.InOrder (.handleDatagram now sender datagram draws)) {cookie : Cookie}
    (hopen : t.forgetting.acceptor.decryptCookie suite datagram = .ok cookie) (hdead : t.Dead expiry cookie.ticketId) :
    cookie.ticket.expiresAt < now := by
  obtain ⟨tick, hmem, hlt⟩ := hdead
  rw [hnamed cookie hopen]
  exact Nat.lt_of_lt_of_le hlt (horder tick hmem)

theorem Dead.after {id : TicketId} (h : t.Dead expiry id) (op : EndpointOp) : (t.after suite op).Dead expiry id := by
  obtain ⟨tick, hmem, hlt⟩ := h
  exact ⟨tick, List.mem_append_left _ hmem, hlt⟩

/-! ### No ticket is redeemed twice -/

/-- What was redeemed is on record until it is dead, and nothing was redeemed
twice. -/
structure Once (expiry : TicketId → Timestamp) (t : Twin) : Prop where
  routed : t.forgetting.Routed
  due : ∀ entry ∈ t.forgetting.redeemedExpiry, entry.1 = expiry entry.2
  spent : ∀ b ∈ t.made, t.forgetting.redeemed b.ticket = none → t.Dead expiry b.ticket
  once : (t.made.map Birth.ticket).Nodup

theorem births_nil {shard : ShardId} {s s' : Slab (Connection Server)} (hs : s.Sound) (hs' : s'.Sound)
    (h : ∀ handle, s.get handle = none → s'.get handle = none) : Group.birthsOf shard s s' = [] := by
  rw [List.eq_nil_iff_forall_not_mem]
  intro b hb
  obtain ⟨-, hnone, conn, hget, -⟩ := (Group.mem_birthsOf hs hs').1 hb
  rw [h b.handle hnone] at hget
  cases hget

theorem made_same (h : t.forgetting.Routed) {op : EndpointOp}
    (hnone : ∀ handle, t.forgetting.connections.get handle = none →
      (t.forgetting.after suite op).connections.get handle = none) : (t.after suite op).made = t.made := by
  show t.made ++ Group.birthsOf _ _ _ = t.made
  rw [births_nil h.sound (Endpoint.after_routed t.forgetting op h).sound hnone, List.append_nil]

/-- A tick leaves on record what is not dead. -/
theorem Once.tick (h : t.Once expiry) (now : Timestamp) : (t.after suite (.handleTimeout now)).Once expiry := by
  have hrouted : (t.forgetting.after suite (.handleTimeout now)).Routed :=
    Endpoint.after_routed t.forgetting _ h.routed
  have hbirths : (t.after suite (.handleTimeout now)).made = t.made := by
    refine made_same h.routed fun handle hnone => ?_
    by_contra hsome
    obtain ⟨conn, hget⟩ := Option.ne_none_iff_exists'.1 hsome
    obtain ⟨_, _, _, _, _, _, heq, -⟩ := Endpoint.after_born suite h.routed.sound hget hnone
    cases heq
  obtain ⟨hexpiry, hrecord⟩ := t.forgetting.passTimers_remembers now
  obtain ⟨hentries, hforgot⟩ := Endpoint.forget_redeemed now
    (t.forgetting.passTimers now).redeemedExpiry.length (t.forgetting.passTimers now)
  refine ⟨hrouted, fun entry hmem => h.due entry (hexpiry ▸ hentries entry hmem), fun b hb hnone => ?_, ?_⟩
  · rw [hbirths] at hb
    rcases hforgot b.ticket hnone with hnone | ⟨at_, hmem, hlt⟩
    · exact (h.spent b hb ((hrecord b.ticket).1 hnone)).after _
    · refine ⟨now, List.mem_append_right _ (List.mem_singleton.2 rfl), ?_⟩
      rw [hexpiry] at hmem
      have heq : at_ = expiry b.ticket := h.due (at_, b.ticket) hmem
      rwa [← heq]
  · rw [hbirths]
    exact h.once

/-- An admission redeems a ticket not redeemed before. -/
theorem Once.admitted (h : t.Once expiry) {now : Timestamp} {sender : SocketAddr} {datagram : List UInt8}
    {draws : Endpoint.Draws} {cookie : Cookie}
    (hnamed : t.Named suite expiry (.handleDatagram now sender datagram draws))
    (horder : t.InOrder (.handleDatagram now sender datagram draws))
    (hadmits : t.forgetting.Admits suite now sender datagram cookie)
    (heq : t.forgetting.after suite (.handleDatagram now sender datagram draws) =
      ((t.forgetting.paid now sender).admitPlayer suite now sender cookie).1) :
    (t.after suite (.handleDatagram now sender datagram draws)).Once expiry := by
  have hopen := (Endpoint.openResponse_ok suite hadmits.opened).1
  have hs : (t.forgetting.paid now sender).connections.Sound := h.routed.sound
  have hrouted : (t.forgetting.after suite (.handleDatagram now sender datagram draws)).Routed :=
    Endpoint.after_routed t.forgetting _ h.routed
  have hafter : (t.after suite (.handleDatagram now sender datagram draws)).forgetting =
      ((t.forgetting.paid now sender).admitPlayer suite now sender cookie).1 := heq
  -- the ticket admitted is off the record, so it has not been redeemed, or is dead
  have hnew : cookie.ticketId ∉ t.made.map Birth.ticket := by
    intro hmem
    obtain ⟨b, hb, hticket⟩ := List.mem_map.1 hmem
    have hdead := h.spent b hb (by rw [hticket]; exact hadmits.unspent)
    have hcheck := hadmits.check
    rw [Endpoint.checkTicket_expired (dead_expired hnamed horder hopen (hticket ▸ hdead))] at hcheck
    cases hcheck
  obtain ⟨-, -, ⟨-, hredeemed, hexpiry, hconns⟩ | ⟨handle, -, hredeemed, hexpiry, hborn⟩⟩ :=
    Endpoint.admit_records suite now hs sender cookie
  · have hbirths : (t.after suite (.handleDatagram now sender datagram draws)).made = t.made := by
      refine made_same h.routed fun handle hnone => ?_
      rw [heq]
      exact hconns.get_none.2 hnone
    refine ⟨hrouted, ?_, ?_, ?_⟩
    · rw [hafter, hexpiry]
      exact h.due
    · rw [hbirths, hafter, hredeemed]
      exact fun b hb hnone => (h.spent b hb hnone).after _
    · rw [hbirths]
      exact h.once
  · have hbirth : ∀ b ∈ Group.birthsOf t.forgetting.shard t.forgetting.connections
        (t.forgetting.after suite (.handleDatagram now sender datagram draws)).connections,
        b = ⟨t.forgetting.shard, handle, cookie.ticketId⟩ := by
      intro b hb
      obtain ⟨hshard, hnone, conn, hget, hticket⟩ := (Group.mem_birthsOf h.routed.sound hrouted.sound).1 hb
      rw [heq] at hget
      rcases ((Endpoint.admitted_updated hs cookie).born hborn).get_some hget with ⟨hhandle, rfl⟩ | ⟨-, c, hc, -⟩
      · cases b
        cases hshard
        cases hhandle
        cases hticket
        rfl
      · exact (Option.some_ne_none c (hc.symm.trans hnone)).elim
    refine ⟨hrouted, fun entry hmem => ?_, fun b hb hnone => ?_, ?_⟩
    · rw [hafter, hexpiry, mem_pushExpiry] at hmem
      rcases hmem with rfl | hmem
      · exact hnamed cookie hopen
      · exact h.due entry hmem
    · rw [hafter, hredeemed] at hnone
      by_cases hid : b.ticket = cookie.ticketId
      · rw [hid, Function.update_self] at hnone
        cases hnone
      · rw [Function.update_of_ne hid] at hnone
        rcases List.mem_append.1 hb with hold | hfresh
        · exact (h.spent b hold hnone).after _
        · exact (hid (by rw [hbirth b hfresh])).elim
    · show ((t.made ++ Group.birthsOf _ _ _).map Birth.ticket).Nodup
      rw [List.map_append, List.nodup_append]
      refine ⟨h.once, ?_, ?_⟩
      · refine List.Nodup.map_on (fun b hb b' hb' _ => ?_) (Group.birthsOf_nodup hrouted.sound _)
        rw [hbirth b hb, hbirth b' hb']
      · rintro id hold _ hfresh rfl
        obtain ⟨b, hb, rfl⟩ := List.mem_map.1 hfresh
        rw [hbirth b hb] at hold
        exact hnew hold

theorem Once.step (h : t.Once expiry) (op : EndpointOp) (hnamed : t.Named suite expiry op) (horder : t.InOrder op) :
    (t.after suite op).Once expiry := by
  by_cases hop : ∃ now, op = .handleTimeout now
  · obtain ⟨now, rfl⟩ := hop
    exact h.tick now
  · rcases Endpoint.after_remembers suite h.routed.sound op fun now heq => hop ⟨now, heq⟩ with
      ⟨⟨hexpiry, hrecord⟩, hnone⟩ | ⟨now, sender, datagram, draws, cookie, rfl, hadmits, heq⟩
    · have hbirths : (t.after suite op).made = t.made := made_same h.routed hnone
      refine ⟨Endpoint.after_routed t.forgetting op h.routed, ?_, ?_, ?_⟩
      · show ∀ entry ∈ (t.forgetting.after suite op).redeemedExpiry, _
        rw [hexpiry]
        exact h.due
      · rw [hbirths]
        exact fun b hb hgone => (h.spent b hb ((hrecord b.ticket).1 hgone)).after op
      · rw [hbirths]
        exact h.once
    · exact h.admitted hnamed horder hadmits heq

theorem new_once (config : EndpointConfig) (backendKey : Key) (channels : ChannelSet) (hasher : SourceKey → Nat) :
    (new (.new config backendKey channels hasher)).Once expiry where
  routed := Endpoint.new_routed config backendKey channels hasher
  due _ hmem := nomatch hmem
  spent _ hmem := nomatch hmem
  once := List.nodup_nil

/-! ### The two are alike -/

/-- The same endpoint but for the record, and the same connections made. -/
structure Same (expiry : TicketId → Timestamp) (t : Twin) : Prop extends Once expiry t where
  alike : Endpoint.Alike (t.Dead expiry) t.forgetting t.keeping
  made_eq : t.keptMade = t.made

theorem Same.shard_eq (h : t.Same expiry) : t.keeping.shard = t.forgetting.shard := by
  obtain ⟨r, x, heq, -⟩ := h.alike
  rw [heq]
  rfl

theorem Same.step (h : t.Same expiry) (op : EndpointOp) (hnamed : t.Named suite expiry op) (horder : t.InOrder op)
    (hgone : t.Unanswered suite op) : (t.after suite op).Same expiry := by
  have halike : Endpoint.Alike ((t.after suite op).Dead expiry) (t.forgetting.after suite op)
      (t.keeping.afterKeeping suite op) := by
    by_cases hop : ∃ now, op = .handleTimeout now
    · obtain ⟨now, rfl⟩ := hop
      refine ((h.alike.passTimers now).mono fun id hdead => hdead.after _).forget _ fun entry hmem hlt => ?_
      refine ⟨now, List.mem_append_right _ (List.mem_singleton.2 rfl), ?_⟩
      rw [(t.forgetting.passTimers_remembers now).1] at hmem
      rwa [← h.due entry hmem]
    · have hkeeping : t.keeping.afterKeeping suite op = t.keeping.after suite op := by
        cases op with
        | handleTimeout now => exact (hop ⟨now, rfl⟩).elim
        | _ => rfl
      rw [hkeeping]
      refine (h.alike.after suite op (fun now heq => hop ⟨now, heq⟩) ?_ ?_).mono fun id hdead => hdead.after op
      · rintro now sender datagram draws cookie rfl hopen hdead
        exact dead_expired hnamed horder hopen hdead
      · rintro now sender datagram draws cookie handle rfl
        exact hgone cookie handle
  refine ⟨h.toOnce.step op hnamed horder, halike, ?_⟩
  show t.keptMade ++ Group.birthsOf t.keeping.shard t.keeping.connections (t.keeping.afterKeeping suite op).connections =
    t.made ++ Group.birthsOf t.forgetting.shard t.forgetting.connections (t.forgetting.after suite op).connections
  rw [h.made_eq, h.shard_eq, halike.connections_eq, h.alike.connections_eq]

/-- **Forgetting is invisible while datagrams are in order.** Where no datagram
is handled at a time before a tick there has been, no ticket is redeemed twice.
Where, beside that, no forgotten ticket is presented while its connection
lives, the connections made are those of the endpoint that forgets nothing, and
the two endpoints differ in the record of spent tickets alone. -/
theorem forgetting_invisible (suite : Suite) (expiry : TicketId → Timestamp) :
    (∀ t, Lts.Reach (sys suite) (fun t op => t.Named suite expiry op ∧ t.InOrder op) t →
      (t.made.map Birth.ticket).Nodup) ∧
    ∀ t, Lts.Reach (sys suite) (fun t op => t.Named suite expiry op ∧ t.InOrder op ∧ t.Unanswered suite op) t →
      t.keptMade = t.made ∧
        t.keeping = t.forgetting.recorded t.keeping.redeemed t.keeping.redeemedExpiry := by
  constructor
  · intro t h
    refine (Lts.Reach.invariant (P := Once expiry) ?_ ?_ h).once
    · rintro _ ⟨config, backendKey, channels, hasher, rfl⟩
      exact new_once config backendKey channels hasher
    · rintro t op t' - ht ⟨hnamed, horder⟩ rfl
      exact ht.step op hnamed horder
  · intro t h
    have hsame : t.Same expiry := by
      refine Lts.Reach.invariant (P := Same expiry) ?_ ?_ h
      · rintro _ ⟨config, backendKey, channels, hasher, rfl⟩
        exact ⟨new_once config backendKey channels hasher, .refl _, rfl⟩
      · rintro t op t' - ht ⟨hnamed, horder, hgone⟩ rfl
        exact ht.step op hnamed horder hgone
    refine ⟨hsame.made_eq, ?_⟩
    obtain ⟨r, x, heq, -⟩ := hsame.alike
    rw [heq]
    rfl

/-! ### One ticket, forgotten -/

open Endpoint (idle response clearSuite drawn)

/-- The player's response, as often as it arrives. -/
def responds (now : Timestamp) : EndpointOp := .handleDatagram now (.v4 1 1) response ⟨0, none⟩

/-- Just past the expiry of the player's ticket. -/
def tick : Timestamp := ⟨1, by decide⟩

def begun : Twin := .new idle

def redeemed : Twin := begun.after clearSuite (responds .zero)

def forgotten : Twin := redeemed.after clearSuite (.handleTimeout tick)

theorem responds_named (t : Twin) (h : t.forgetting.acceptor = idle.acceptor) (now : Timestamp) :
    t.Named clearSuite (fun _ => .zero) (responds now) := by
  intro cookie hopen
  rw [h] at hopen
  have hall : ((idle.acceptor.decryptCookie clearSuite response).toOption.all
      fun cookie => decide (cookie.ticket.expiresAt = .zero)) = true := by decide +kernel
  rw [hopen] at hall
  exact of_decide_eq_true hall

theorem begun_start : (sys clearSuite).start begun := ⟨_, _, _, _, rfl⟩

theorem acceptor_kept (t : Twin) (op : EndpointOp) :
    (t.after suite op).forgetting.acceptor = t.forgetting.acceptor :=
  congrArg (·.2.2) (t.forgetting.after_fixed suite op)

theorem invisible_forgotten :
    forgotten.forgetting.redeemed drawn = none ∧ forgotten.keeping.redeemed drawn ≠ none ∧
    forgotten.made.map Birth.ticket = [drawn] ∧ (forgotten.made.map Birth.ticket).Nodup ∧
    forgotten.keptMade = forgotten.made ∧
    forgotten.keeping =
      forgotten.forgetting.recorded forgotten.keeping.redeemed forgotten.keeping.redeemedExpiry := by
  have hfirst : begun.Named clearSuite (fun _ => .zero) (responds .zero) ∧ begun.InOrder (responds .zero) ∧
      begun.Unanswered clearSuite (responds .zero) :=
    ⟨responds_named begun rfl .zero, fun _ hmem => (nomatch hmem), fun _ _ _ _ hspent => (nomatch hspent)⟩
  have hlast : redeemed.Named clearSuite (fun _ => .zero) (.handleTimeout tick) ∧
      redeemed.InOrder (.handleTimeout tick) ∧ redeemed.Unanswered clearSuite (.handleTimeout tick) :=
    ⟨trivial, trivial, trivial⟩
  have hreach : Lts.Reach (sys clearSuite) (fun t op => t.Named clearSuite (fun _ => .zero) op ∧ t.InOrder op ∧
      t.Unanswered clearSuite op) forgotten := .step (.step (.start begun_start) hfirst rfl) hlast rfl
  obtain ⟨honce, hsame⟩ := forgetting_invisible clearSuite fun _ => .zero
  obtain ⟨hmade, hkeeping⟩ := hsame forgotten hreach
  exact ⟨by decide +kernel, by decide +kernel, by decide +kernel,
    honce forgotten (hreach.mono fun _ _ h => ⟨h.1, h.2.1⟩), hmade, hkeeping⟩

/-- **A ticket redeemed twice.** A response is taken at the time its ticket
expires, and a tick just after forgets the ticket. A copy of the response that
arrived with the first, and is handled after the tick, makes a second
connection. The endpoint that forgets nothing makes one. -/
theorem redeemed_twice :
    ∃ t, Lts.Reach (sys clearSuite) (fun t op => t.Named clearSuite (fun _ => .zero) op) t ∧
      t.made.map Birth.ticket = [drawn, drawn] ∧ t.keptMade.map Birth.ticket = [drawn] := by
  refine ⟨forgotten.after clearSuite (responds .zero), ?_, by decide +kernel, by decide +kernel⟩
  have hacceptor : forgotten.forgetting.acceptor = idle.acceptor := (acceptor_kept redeemed _).trans (acceptor_kept begun _)
  have htick : redeemed.Named clearSuite (fun _ => .zero) (.handleTimeout tick) := trivial
  exact .step (.step (.step (.start begun_start) (responds_named begun rfl .zero) rfl) htick rfl)
    (responds_named forgotten hacceptor .zero) rfl

end Twin
end HexNet
