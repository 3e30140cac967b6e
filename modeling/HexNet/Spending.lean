/-
Spent tickets. A turn leaves the record of them alone, closes the retry path
of a ticket whose connection is removed, or forgets one past its expiry
(`Turn.spending`); an admission adds one.
-/
import HexNet.Routing

namespace HexNet

namespace Slab

variable {s s' : Slab (Connection Server)} {handle : Handle} {conn : Connection Server}

theorem Updated.get_kept (h : s.Updated s') (hget : s.get handle = some conn) :
    ∃ c', s'.get handle = some c' ∧ conn.Kept c' := by
  have hrel := h.rel handle
  rw [hget] at hrel
  generalize s'.get handle = b at hrel
  cases hrel with
  | some hk => exact ⟨_, rfl, hk⟩

/-- A birth leaves the other connections. -/
theorem Born.get_kept (h : s.Born s' handle conn) {h' : Handle} {c : Connection Server} (hget : s.get h' = some c) :
    ∃ c', s'.get h' = some c' ∧ c.Kept c' := by
  have hne : h' ≠ handle := by
    rintro rfl
    rw [h.get_none] at hget
    cases hget
  obtain ⟨s₁, hs, -, -, -, -, hall⟩ := h
  rw [hall, if_neg hne]
  exact hs.get_kept hget

end Slab

theorem Connection.Kept.ticket_eq {c c' : Connection Server} (h : c.Kept c') : c'.role.ticket = c.role.ticket :=
  congrArg Prod.snd h.mark_eq

theorem Connection.Kept.session_eq {c c' : Connection Server} (h : c.Kept c') : c'.role.session = c.role.session :=
  congrArg Prod.fst h.mark_eq

theorem mem_pushExpiry {spent entry : Timestamp × TicketId} {entries : List (Timestamp × TicketId)} :
    entry ∈ pushExpiry spent entries ↔ entry = spent ∨ entry ∈ entries := by
  induction entries with
  | nil => simp [pushExpiry]
  | cons next rest ih =>
    rw [pushExpiry]
    split
    · rw [List.mem_cons]
    · rw [List.mem_cons, ih, List.mem_cons]
      tauto

namespace Endpoint

variable {suite : Suite} {e e' : Endpoint} {now : Timestamp}

/-- What became of the spent tickets, and of the connections with them. -/
inductive Spending (now : Timestamp) (e e' : Endpoint) : Prop
  | same : e'.redeemed = e.redeemed → e'.redeemedExpiry = e.redeemedExpiry →
    e.connections.Updated e'.connections → Spending now e e'
  /-- The connection was removed, and its ticket can no longer be retried. -/
  | closed {s : Slab (Connection Server)} (handle : Handle) (conn : Connection Server) :
    e.connections.Updated s → s.get handle = some conn → e'.connections = (s.remove handle).1 →
    e'.redeemedExpiry = e.redeemedExpiry →
    (∀ id, e'.redeemed id = if id = conn.role.ticket then (e.redeemed id).map fun _ => ⟨none⟩ else e.redeemed id) →
    Spending now e e'
  | forgot (at_ : Timestamp) (id : TicketId) :
    e.redeemedExpiry = (at_, id) :: e'.redeemedExpiry → at_ < now →
    e'.redeemed = Function.update e.redeemed id none → e'.connections = e.connections → Spending now e e'

theorem removed_redeemed (e : Endpoint) (handle : Handle) (ticket id : TicketId) :
    (e.removed handle ticket).redeemed id = if id = ticket then (e.redeemed id).map fun _ => ⟨none⟩ else e.redeemed id := by
  unfold removed
  dsimp only
  cases hspent : e.redeemed ticket with
  | none =>
    dsimp only
    split
    next heq => rw [heq, hspent, Option.map_none]
    · rfl
  | some spent =>
    dsimp only
    split
    next heq => rw [heq, Function.update_self, hspent, Option.map_some]
    next hne => rw [Function.update_of_ne hne]

/-- **What a turn does to the spent tickets.** -/
theorem Turn.spending (h : Turn now e e') (hs : e.connections.Sound) : Spending now e e' := by
  cases h.outline hs with
  | kept heq hconns =>
    rw [heq]
    exact .same rfl rfl hconns
  | removed handle conn reason heq hconns hget =>
    rw [heq]
    generalize hgone : removed _ handle conn.role.ticket = gone
    obtain ⟨_, _, _, hdetach⟩ := gone.detach_frame handle conn.role.session reason now
    rw [hdetach]
    refine .closed handle conn hconns hget (by rw [← hgone]; rfl) (by rw [← hgone]; rfl) fun id => ?_
    rw [← hgone]
    exact removed_redeemed _ handle conn.role.ticket id
  | expired since session suspended heq =>
    rw [heq]
    exact .same rfl rfl (.refl hs)
  | skipped since session suspended heq =>
    rw [heq]
    exact .same rfl rfl (.refl hs)
  | forgot at_ id redeemedExpiry heq hexpiry hpast =>
    rw [heq]
    exact .forgot at_ id hexpiry hpast rfl rfl

/-- **What an admission records**, of the sessions and the spent tickets. -/
theorem admit_records (suite : Suite) (now : Timestamp) (hs : e.connections.Sound) (sender : SocketAddr) (cookie : Cookie) :
    (e.admitPlayer suite now sender cookie).1.suspended = e.suspended ∧
    (e.admitPlayer suite now sender cookie).1.nextSessionSequence = (e.openSession cookie).1.nextSessionSequence ∧
    ((e.admitPlayer suite now sender cookie).1.sessions = e.sessions ∧
        (e.admitPlayer suite now sender cookie).1.redeemed = e.redeemed ∧
        (e.admitPlayer suite now sender cookie).1.redeemedExpiry = e.redeemedExpiry ∧
        e.connections.Updated (e.admitPlayer suite now sender cookie).1.connections ∨
      ∃ handle,
        (e.admitPlayer suite now sender cookie).1.sessions =
          Function.update e.sessions (e.openSession cookie).2.1 (some ⟨cookie.ticket.clientId, .live handle⟩) ∧
        (e.admitPlayer suite now sender cookie).1.redeemed =
          Function.update e.redeemed cookie.ticketId (some ⟨some handle⟩) ∧
        (e.admitPlayer suite now sender cookie).1.redeemedExpiry =
          pushExpiry (cookie.ticket.expiresAt, cookie.ticketId) e.redeemedExpiry ∧
        (e.admitting cookie).connections.Born (e.admitPlayer suite now sender cookie).1.connections handle
          (e.accepted suite now sender cookie (e.openSession cookie).2.1 handle)) := by
  obtain ⟨_, _, _, htake⟩ := e.admitting_frame cookie
  have hupdated := admitted_updated hs cookie
  rcases admit_inserts suite now hs sender cookie with heq | ⟨s, handle, heq, -, hborn⟩
  · rw [heq]
    refine ⟨?_, ?_, .inl ⟨?_, ?_, ?_, hupdated⟩⟩
    all_goals rw [htake]
  · rw [heq]
    obtain ⟨_, _, htouch⟩ := touch_frame { e.admitting cookie with
      connections := s, schedules := Function.update _ handle.index .default } handle
    refine ⟨?_, ?_, .inr ⟨handle, ?_, ?_, ?_, by rw [settled_connections]; exact hborn⟩⟩
    all_goals
      unfold settled
      dsimp only
      rw [htouch, htake]

theorem checkTicket_expired {ticket : Ticket} (h : ticket.expiresAt < now) :
    e.checkTicket now ticket = .error .expired := by
  rw [checkTicket, Ticket.checkExpiry, if_pos h]

/-- The record of spent tickets at `now`, of an endpoint where `Made` says
which tickets were redeemed for which connections and `Expires` when a ticket
does: what was redeemed is on record until its expiry has passed, and a record
that names a connection names the live one the ticket was redeemed for. -/
structure Accounts (Expires : TicketId → Timestamp → Prop) (Made : TicketId → Handle → Prop) (now : Timestamp)
    (e : Endpoint) : Prop where
  expiry : ∀ entry ∈ e.redeemedExpiry, Expires entry.2 entry.1
  spent : ∀ id handle, Made id handle → e.redeemed id ≠ none ∨ ∃ t, Expires id t ∧ t < now
  live : ∀ id handle, e.redeemed id = some ⟨some handle⟩ →
    Made id handle ∧ ∃ conn, e.connections.get handle = some conn ∧ conn.role.ticket = id

variable {Expires Expires' : TicketId → Timestamp → Prop} {Made Made' : TicketId → Handle → Prop}

theorem Accounts.turn (h : e.Accounts Expires Made now) (hs : e.connections.Sound) (hturn : Turn now e e') :
    e'.Accounts Expires Made now := by
  cases hturn.spending hs with
  | same hredeemed hexpiry hconns =>
    refine ⟨hexpiry ▸ h.expiry, hredeemed ▸ h.spent, fun id handle hid => ?_⟩
    rw [hredeemed] at hid
    obtain ⟨hmade, conn, hget, hticket⟩ := h.live id handle hid
    obtain ⟨conn', hget', hkept⟩ := hconns.get_kept hget
    exact ⟨hmade, conn', hget', hkept.ticket_eq.trans hticket⟩
  | closed handle conn hconns hgone hafter hexpiry hredeemed =>
    refine ⟨hexpiry ▸ h.expiry, fun id h' hmade => ?_, fun id h' hid => ?_⟩
    · refine (h.spent id h' hmade).imp (fun hne => ?_) fun hpast => hpast
      rw [hredeemed]
      split
      · rwa [Ne, Option.map_eq_none_iff]
      · exact hne
    · rw [hredeemed] at hid
      split at hid
      · obtain ⟨spent, -, hspent⟩ := Option.map_eq_some_iff.1 hid
        cases hspent
      next hne =>
        obtain ⟨hmade, c, hget, hticket⟩ := h.live id h' hid
        obtain ⟨c', hget', hkept⟩ := hconns.get_kept hget
        refine ⟨hmade, c', ?_, hkept.ticket_eq.trans hticket⟩
        rw [hafter, Slab.get_remove hconns.sound, if_neg, hget']
        -- the connection removed was redeemed with another ticket
        rintro rfl
        cases hget'.symm.trans hgone
        exact hne (hticket.symm.trans hkept.ticket_eq.symm)
  | forgot at_ id hexpiry hpast hredeemed hconns =>
    refine ⟨fun entry hmem => ?_, fun id' handle hmade => ?_, fun id' handle hid => ?_⟩
    · exact h.expiry entry (by rw [hexpiry]; exact List.mem_cons_of_mem _ hmem)
    · by_cases heq : id' = id
      · subst heq
        exact .inr ⟨at_, h.expiry (at_, id') (by rw [hexpiry]; exact List.mem_cons_self), hpast⟩
      · rw [hredeemed, Function.update_of_ne heq]
        exact h.spent id' handle hmade
    · by_cases heq : id' = id
      · subst heq
        rw [hredeemed, Function.update_self] at hid
        cases hid
      · rw [hredeemed, Function.update_of_ne heq] at hid
        rw [hconns]
        exact h.live id' handle hid

theorem Accounts.turns (h : e.Accounts Expires Made now) (hs : e.connections.Sound) (hturns : Turns now e e') :
    e'.Accounts Expires Made now :=
  (hturns.invariant (P := fun e => e.Accounts Expires Made now ∧ e.connections.Sound)
    (fun _ _ hturn h => ⟨h.1.turn h.2 hturn, (hturn.thinned h.2).sound⟩) ⟨h, hs⟩).1

/-- More is known, and later. -/
theorem Accounts.mono {later : Timestamp} (h : e.Accounts Expires Made now) (hle : now ≤ later)
    (hexpires : ∀ id t, Expires id t → Expires' id t) (hmade : ∀ id handle, Made id handle → Made' id handle)
    (hold : ∀ id handle, Made' id handle → Made id handle ∨ e.redeemed id ≠ none) :
    e.Accounts Expires' Made' later where
  expiry entry hmem := hexpires _ _ (h.expiry entry hmem)
  spent id handle hid := by
    rcases hold id handle hid with hid | hne
    · refine (h.spent id handle hid).imp (fun hne => hne) ?_
      rintro ⟨t, ht, hlt⟩
      exact ⟨t, hexpires id t ht, Nat.lt_of_lt_of_le hlt hle⟩
    · exact .inl hne
  live id handle hid := (h.live id handle hid).imp (hmade id handle) fun hconn => hconn

/-- An admission keeps accounts, with the connection it makes, if it makes one. -/
theorem Accounts.admitPlayer (h : e.Accounts Expires Made now) (hs : e.connections.Sound) {sender : SocketAddr}
    {cookie : Cookie} (hexpires : Expires cookie.ticketId cookie.ticket.expiresAt)
    (hmade : ∀ id handle, Made id handle → Made' id handle)
    (hold : ∀ id handle, Made' id handle → Made id handle ∨
      id = cookie.ticketId ∧ e.connections.get handle = none ∧
        ((e.admitPlayer suite now sender cookie).1.connections.get handle).isSome = true)
    (hnew : ∀ handle conn, e.connections.get handle = none →
      (e.admitPlayer suite now sender cookie).1.connections.get handle = some conn → Made' cookie.ticketId handle) :
    (e.admitPlayer suite now sender cookie).1.Accounts Expires Made' now := by
  have hconns := admitted_updated hs cookie
  obtain ⟨-, -, ⟨-, hredeemed, hexpiry, hconns⟩ | ⟨handle, -, hredeemed, hexpiry, hborn⟩⟩ :=
    admit_records suite now hs sender cookie
  · refine ⟨hexpiry ▸ h.expiry, fun id h' hid => ?_, fun id h' hid => ?_⟩
    · rcases hold id h' hid with hid | ⟨-, hnone, hlive⟩
      · rw [hredeemed]
        exact h.spent id h' hid
      · rw [hconns.get_none.2 hnone] at hlive
        cases hlive
    · rw [hredeemed] at hid
      obtain ⟨hid, conn, hget, hticket⟩ := h.live id h' hid
      obtain ⟨conn', hget', hkept⟩ := hconns.get_kept hget
      exact ⟨hmade id h' hid, conn', hget', hkept.ticket_eq.trans hticket⟩
  · refine ⟨fun entry hmem => ?_, fun id h' hid => ?_, fun id h' hid => ?_⟩
    · rw [hexpiry, mem_pushExpiry] at hmem
      rcases hmem with rfl | hmem
      · exact hexpires
      · exact h.expiry entry hmem
    · rw [hredeemed]
      by_cases heq : id = cookie.ticketId
      · rw [heq, Function.update_self]
        exact .inl (Option.some_ne_none _)
      · rw [Function.update_of_ne heq]
        rcases hold id h' hid with hid | ⟨hid, -⟩
        · exact h.spent id h' hid
        · exact (heq hid).elim
    · rw [hredeemed] at hid
      by_cases heq : id = cookie.ticketId
      · subst heq
        rw [Function.update_self] at hid
        cases hid
        exact ⟨hnew handle _ (hconns.born hborn).get_none hborn.get_self, _, hborn.get_self, rfl⟩
      · rw [Function.update_of_ne heq] at hid
        obtain ⟨hid, conn, hget, hticket⟩ := h.live id h' hid
        obtain ⟨conn', hget', hkept⟩ := (hconns.born hborn).get_kept hget
        exact ⟨hmade id h' hid, conn', hget', hkept.ticket_eq.trans hticket⟩

end Endpoint
end HexNet
