/-
Routing by connection id. Over whole runs the live connections are those the
slab answers for, each still what it was accepted as (`Turn.thinned`), so its
id is the one its slot and generation derive and names it alone.
-/
import HexNet.Turns

namespace HexNet

open Connection (Call)

/-! ## What a turn does to the connections -/

namespace Slab

/-- The same connections under the same handles, each what it was. -/
structure Updated (s s' : Slab (Connection Server)) : Prop where
  sound : s'.Sound
  capacity_eq : s'.capacity = s.capacity
  rel : ∀ h, Option.Rel Connection.Kept (s.get h) (s'.get h)

theorem Updated.refl {s : Slab (Connection Server)} (h : s.Sound) : s.Updated s :=
  ⟨h, rfl, fun handle => by cases s.get handle <;> constructor; exact .refl _⟩

theorem Updated.trans {s₁ s₂ s₃ : Slab (Connection Server)} (h₁ : s₁.Updated s₂) (h₂ : s₂.Updated s₃) :
    s₁.Updated s₃ := by
  refine ⟨h₂.sound, h₂.capacity_eq.trans h₁.capacity_eq, fun h => ?_⟩
  have r₁ := h₁.rel h
  have r₂ := h₂.rel h
  generalize s₁.get h = a at r₁
  generalize s₂.get h = b at r₁ r₂
  generalize s₃.get h = c at r₂
  cases r₁ with
  | none => exact r₂
  | some hk₁ =>
    cases r₂ with
    | some hk₂ => exact .some (hk₁.trans hk₂)

theorem Updated.get_some {s s' : Slab (Connection Server)} (h : s.Updated s') {handle : Handle}
    {c' : Connection Server} (hget : s'.get handle = some c') : ∃ c, s.get handle = some c ∧ c.Kept c' := by
  have hrel := h.rel handle
  rw [hget] at hrel
  generalize s.get handle = a at hrel
  cases hrel with
  | some hk => exact ⟨_, rfl, hk⟩

theorem Updated.get_none {s s' : Slab (Connection Server)} (h : s.Updated s') {handle : Handle} :
    s'.get handle = none ↔ s.get handle = none := by
  have hrel := h.rel handle
  generalize s.get handle = a at hrel
  generalize s'.get handle = b at hrel
  cases hrel <;> simp

theorem updated_modify {s : Slab (Connection Server)} (h : s.Sound) (handle : Handle)
    {f : Connection Server → Connection Server} (hf : ∀ c, s.get handle = some c → c.Kept (f c)) :
    s.Updated (s.modify handle f) := by
  refine ⟨modify_sound h handle f, ?_, fun h' => ?_⟩
  · unfold modify
    split <;> rfl
  · rw [get_modify h]
    split
    next heq =>
      subst heq
      cases hget : s.get h' with
      | none => constructor
      | some c => exact .some (hf c hget)
    · cases s.get h' <;> constructor
      exact .refl _

/-- The same, but that one connection may have been removed. -/
inductive Thinned (s s' : Slab (Connection Server)) : Prop
  | updated : s.Updated s' → Thinned s s'
  | died {s₁ : Slab (Connection Server)} (handle : Handle) :
    s.Updated s₁ → s' = (s₁.remove handle).1 → Thinned s s'

theorem Thinned.sound {s s' : Slab (Connection Server)} (h : s.Thinned s') : s'.Sound := by
  cases h with
  | updated hs => exact hs.sound
  | died handle hs heq => exact heq ▸ remove_sound hs.sound handle

theorem Thinned.capacity_eq {s s' : Slab (Connection Server)} (h : s.Thinned s') : s'.capacity = s.capacity := by
  cases h with
  | updated hs => exact hs.capacity_eq
  | died handle hs heq => rw [heq, remove_capacity hs.sound, hs.capacity_eq]

theorem Thinned.get_some {s s' : Slab (Connection Server)} (h : s.Thinned s') {handle : Handle}
    {c' : Connection Server} (hget : s'.get handle = some c') : ∃ c, s.get handle = some c ∧ c.Kept c' := by
  cases h with
  | updated hs => exact hs.get_some hget
  | died gone hs heq =>
    rw [heq, get_remove hs.sound] at hget
    split at hget
    · cases hget
    · exact hs.get_some hget

/-- One more connection, under a handle no live connection shares a slot with. -/
def Born (s s' : Slab (Connection Server)) (handle : Handle) (conn : Connection Server) : Prop :=
  ∃ s₁, s.Updated s₁ ∧ s'.Sound ∧ s'.capacity = s₁.capacity ∧ s₁.get handle = none ∧
    (∀ live, (s₁.get live).isSome = true → live.index ≠ handle.index) ∧
    ∀ h', s'.get h' = if h' = handle then some conn else s₁.get h'

section

variable {s s' : Slab (Connection Server)} {handle : Handle} {conn : Connection Server}

theorem Born.sound (h : s.Born s' handle conn) : s'.Sound := by
  obtain ⟨s₁, -, hsound, -⟩ := h
  exact hsound

theorem Born.capacity_eq (h : s.Born s' handle conn) : s'.capacity = s.capacity := by
  obtain ⟨s₁, hs, -, hcap, -⟩ := h
  exact hcap.trans hs.capacity_eq

theorem Born.get_none (h : s.Born s' handle conn) : s.get handle = none := by
  obtain ⟨s₁, hs, -, -, hnone, -⟩ := h
  exact hs.get_none.1 hnone

theorem Born.get_self (h : s.Born s' handle conn) : s'.get handle = some conn := by
  obtain ⟨s₁, -, -, -, -, -, hget⟩ := h
  rw [hget, if_pos rfl]

/-- A connection is the new one or was there already. -/
theorem Born.get_some (h : s.Born s' handle conn) {h' : Handle} {c' : Connection Server} (hget : s'.get h' = some c') :
    h' = handle ∧ c' = conn ∨ h' ≠ handle ∧ ∃ c, s.get h' = some c ∧ c.Kept c' := by
  obtain ⟨s₁, hs, -, -, -, -, hall⟩ := h
  rw [hall] at hget
  split at hget
  next heq => exact .inl ⟨heq, (Option.some.inj hget).symm⟩
  next hne => exact .inr ⟨hne, hs.get_some hget⟩

/-- A birth among connections that were updated. -/
theorem Updated.born {s₁ : Slab (Connection Server)} (h : s.Updated s₁) (hb : s₁.Born s' handle conn) :
    s.Born s' handle conn := by
  obtain ⟨s₂, hs, hsound, hcap, hnone, hindex, hget⟩ := hb
  exact ⟨s₂, h.trans hs, hsound, hcap, hnone, hindex, hget⟩

end

end Slab

namespace Endpoint

variable {suite : Suite} {e e' : Endpoint} {now : Timestamp}

theorem touch_connections (e : Endpoint) (handle : Handle) : (e.touch handle).connections = e.connections := by
  obtain ⟨_, _, heq⟩ := e.touch_frame handle
  rw [heq]

theorem pumpEvents_updated (h : e.connections.Sound) (handle : Handle) :
    e.connections.Updated (e.pumpEvents handle).connections := by
  unfold pumpEvents
  split
  · exact .refl h
  · exact Slab.updated_modify h handle fun c _ => .same rfl rfl rfl rfl rfl

theorem connectionMut_updated (h : e.connections.Sound) (handle : Handle)
    {f : Connection Server → Connection Server} (hf : ∀ c : Connection Server, c.Kept (f c)) :
    e.connections.Updated (e.connectionMut handle f).connections := by
  unfold connectionMut
  split
  · dsimp only
    rw [touch_connections]
    exact Slab.updated_modify h handle fun c _ => hf c
  · exact .refl h

theorem takeOver_updated (h : e.connections.Sound) (session : SessionId) :
    e.connections.Updated (e.takeOver session).connections := by
  unfold takeOver
  split
  · exact connectionMut_updated h _ fun c => Connection.close_kept c _
  · exact .refl h
  · exact .refl h

theorem openSession_connections (e : Endpoint) (cookie : Cookie) :
    (e.openSession cookie).1.connections = e.connections := by
  obtain ⟨_, heq⟩ := e.openSession_frame cookie
  rw [heq]

theorem settled_connections (e : Endpoint) (cookie : Cookie) (session : SessionId) (resumed : Bool) (handle : Handle) :
    (e.settled cookie session resumed handle).connections = e.connections := touch_connections _ handle

theorem rearm_connections (e : Endpoint) (handle : Handle) (deadline : Option Timestamp) :
    (e.rearm handle deadline).connections = e.connections := by
  obtain ⟨_, _, _, heq⟩ := e.rearm_frame handle deadline
  rw [heq]

theorem detach_connections (e : Endpoint) (handle : Handle) (session : SessionId) (reason : CloseReason)
    (now : Timestamp) : (e.detach handle session reason now).connections = e.connections := by
  obtain ⟨_, _, _, heq⟩ := e.detach_frame handle session reason now
  rw [heq]

theorem drainOne_updated (now : Timestamp) (h : e.connections.Sound) (handle : Handle) (slot : Packet) :
    e.connections.Updated (e.drainOne now handle slot).1.connections := by
  unfold drainOne
  split
  · exact .refl h
  next conn hget =>
    dsimp only
    rw [rearm_connections]
    refine Slab.updated_modify h handle fun c hc => ?_
    cases hget.symm.trans hc
    exact Connection.pollTransmit_kept _ now slot

theorem service_updated (now : Timestamp) (h : e.connections.Sound) (slot : Nat) :
    e.connections.Updated (e.service now slot).connections := by
  unfold service
  split
  · exact .refl h
  next handle _ =>
    have hserviced := Slab.updated_modify h handle fun c _ => Connection.handleTimeout_kept c now
    refine hserviced.trans ?_
    have hpumped := pumpEvents_updated
      (e := { e with connections := e.connections.modify handle (·.handleTimeout now) }.touch handle)
      (by rw [touch_connections]; exact hserviced.sound) handle
    rw [touch_connections] at hpumped
    exact hpumped

theorem received_updated (h : e.connections.Sound) (now : Timestamp) (sender : SocketAddr) (datagram : List UInt8)
    {handle : Handle} {conn : Connection Server} (hget : e.connections.get handle = some conn) :
    e.connections.Updated (({ e with
      connections := e.connections.modify handle fun _ => (conn.handleDatagram now sender datagram).1 }.touch
        handle).pumpEvents handle).connections := by
  have htaken := Slab.updated_modify h handle
    (f := fun _ => (conn.handleDatagram now sender datagram).1) fun c hc => by
      cases hget.symm.trans hc
      exact Connection.handleDatagram_kept _ now sender datagram
  have hpumped := pumpEvents_updated (e := { e with connections := e.connections.modify handle fun _ =>
    (conn.handleDatagram now sender datagram).1 }.touch handle) (by rw [touch_connections]; exact htaken.sound) handle
  rw [touch_connections] at hpumped
  exact htaken.trans hpumped

/-- The deployment, the channels and the acceptor. -/
def fixed (e : Endpoint) : EndpointConfig × ChannelSet × Acceptor := (e.config, e.channels, e.acceptor)

/-- The endpoint an admission inserts its connection into. -/
def admitting (e : Endpoint) (cookie : Cookie) : Endpoint :=
  (e.openSession cookie).1.takeOver (e.openSession cookie).2.1

theorem admitting_frame (e : Endpoint) (cookie : Cookie) :
    ∃ connections schedules ready, e.admitting cookie = { e with
      connections, schedules, ready, nextSessionSequence := (e.openSession cookie).1.nextSessionSequence } := by
  obtain ⟨_, _, _, htake⟩ := (e.openSession cookie).1.takeOver_frame (e.openSession cookie).2.1
  obtain ⟨_, hopen⟩ := e.openSession_frame cookie
  rw [admitting, htake, hopen]
  exact ⟨_, _, _, rfl⟩

/-- It is the endpoint as it was, but for the session that is drawn, or has
closed the connection that had the session. -/
theorem admitting_rule {P : Endpoint → Prop} (cookie : Cookie) (hopen : ∀ n, P { e with nextSessionSequence := n })
    (hclose : ∀ n prev, P ({ e with nextSessionSequence := n }.connectionMut prev (·.close .replaced))) :
    P (e.admitting cookie) := by
  obtain ⟨n, heq⟩ := e.openSession_frame cookie
  unfold admitting takeOver
  rw [heq]
  split
  · exact hclose n _
  · exact hopen n
  · exact hopen n

theorem admitting_fixed (e : Endpoint) (cookie : Cookie) : (e.admitting cookie).fixed = e.fixed := by
  obtain ⟨_, _, _, heq⟩ := e.admitting_frame cookie
  rw [heq]
  rfl

theorem admit_fixed (suite : Suite) (e : Endpoint) (now : Timestamp) (sender : SocketAddr) (cookie : Cookie) :
    (e.admitPlayer suite now sender cookie).1.fixed = e.fixed := by
  unfold admitPlayer
  dsimp only
  rw [← admitting]
  split
  · exact e.admitting_fixed cookie
  · unfold settled
    dsimp only
    obtain ⟨_, _, htouch⟩ := touch_frame { e.admitting cookie with connections := _, schedules := _ } _
    rw [htouch]
    exact e.admitting_fixed cookie

theorem Turn.fixed_eq (h : Turn now e e') : e'.fixed = e.fixed := by
  cases h with
  | charged | expired | skipped | forgot | polled => rfl
  | called handle call =>
    obtain ⟨_, _, _, heq⟩ := e.connectionMut_frame handle (·.after call)
    rw [heq]
    rfl
  | received sender datagram handle conn hget =>
    obtain ⟨_, _, _, _, heq⟩ := e.touchPump_frame handle _
    rw [heq]
    rfl
  | drained handle ready slot hready =>
    obtain ⟨_, _, _, _, heq⟩ := ({ e with ready } : Endpoint).drainOne_frame handle now slot
    rw [heq]
    rfl
  | serviced slot hdue =>
    obtain ⟨_, _, _, _, heq⟩ := ({ e with timers := (e.timers.popDue now).1 } : Endpoint).service_frame now slot
    rw [heq]
    rfl
  | retired handle retiring hretiring =>
    obtain ⟨_, _, _, hpump⟩ := ({ e with retiring } : Endpoint).pumpEvents_frame handle
    unfold retire
    dsimp only
    rw [hpump]
    split
    · rfl
    · obtain ⟨_, _, _, hdetach⟩ := detach_frame (removed _ handle _) handle _ _ now
      rw [hdetach]
      rfl

/-- What no call changes. -/
theorem after_fixed (suite : Suite) (e : Endpoint) (op : EndpointOp) : (e.after suite op).fixed = e.fixed :=
  after_keeps suite (P := fun e' => e'.fixed = e.fixed) (fun _ _ _ hturn h => hturn.fixed_eq.trans h)
    (fun now sender _ cookie _ _ h => (admit_fixed suite _ now sender cookie).trans h) e op rfl

theorem accepted_congr (h : e'.fixed = e.fixed) (now : Timestamp) (sender : SocketAddr) (cookie : Cookie)
    (session : SessionId) (handle : Handle) :
    e'.accepted suite now sender cookie session handle = e.accepted suite now sender cookie session handle := by
  simp only [fixed, Prod.mk.injEq] at h
  simp only [accepted, connIdOf, shard, h.1, h.2.1]

theorem admitted_updated (h : e.connections.Sound) (cookie : Cookie) :
    e.connections.Updated (e.admitting cookie).connections :=
  admitting_rule (P := fun e' => e.connections.Updated e'.connections) cookie (fun _ => .refl h) fun n prev =>
    connectionMut_updated (e := { e with nextSessionSequence := n }) h prev fun c => Connection.close_kept c .replaced

/-- An admission inserts a connection beside those the takeover left, or every
slot that is free has been retired. -/
theorem admit_inserts (suite : Suite) (now : Timestamp) (h : e.connections.Sound) (sender : SocketAddr) (cookie : Cookie) :
    e.admitPlayer suite now sender cookie =
        (e.admitting cookie, .dropped .full) ∨
      ∃ s handle, e.admitPlayer suite now sender cookie =
        ({ e.admitting cookie with connections := s }.settled cookie
          (e.openSession cookie).2.1 (e.openSession cookie).2.2 handle, .connected handle) ∧
        (∃ make, (e.admitting cookie).connections.insertWith make =
          (s, some handle)) ∧
        (e.admitting cookie).connections.Born s handle
          (e.accepted suite now sender cookie (e.openSession cookie).2.1 handle) := by
  have hfixed := e.admitting_fixed cookie
  have hupdated := admitted_updated h cookie
  unfold admitPlayer
  dsimp only
  rw [← admitting]
  rcases Slab.insertWith_spec hupdated.sound
    ((e.admitting cookie).accepted suite now sender cookie
      (e.openSession cookie).2.1) with heq | ⟨s, handle, heq, hsound, hcap, hnone, hindex, hget⟩
  · rw [heq]
    exact .inl rfl
  · rw [heq]
    refine .inr ⟨s, handle, rfl, ⟨_, heq⟩, _, .refl hupdated.sound, hsound, hcap, hnone, hindex, fun h' => ?_⟩
    rw [← accepted_congr hfixed]
    exact hget h'

/-- **What admitting a player does.** A connection takes a fresh slot, and the
rest follows; or every slot that is free has been retired. -/
theorem admit_cases (suite : Suite) (now : Timestamp) (h : e.connections.Sound) (sender : SocketAddr) (cookie : Cookie) :
    e.admitPlayer suite now sender cookie =
        (e.admitting cookie, .dropped .full) ∨
      ∃ s handle, e.admitPlayer suite now sender cookie =
        ({ e.admitting cookie with connections := s }.settled cookie
          (e.openSession cookie).2.1 (e.openSession cookie).2.2 handle, .connected handle) ∧
        e.connections.Born s handle (e.accepted suite now sender cookie (e.openSession cookie).2.1 handle) := by
  rcases admit_inserts suite now h sender cookie with heq | ⟨s, handle, heq, -, hborn⟩
  · exact .inl heq
  · exact .inr ⟨s, handle, heq, (admitted_updated h cookie).born hborn⟩

/-- What a turn comes to. Most only look after connections; the others are
given by what they do to the session, the queue entry or the ticket. -/
inductive Outline (now : Timestamp) (e e' : Endpoint) : Prop
  | kept {connections : Slab (Connection Server)} {limiter : RateLimiter} {requests : Bucket globalRequests}
      {responses : Bucket globalResponses} {schedules : Nat → Schedule} {timers : TimerHeap} {ready retiring : List Handle}
      {events : List EndpointEvent} :
    e' = { e with connections, limiter, requests, responses, schedules, timers, ready, retiring, events } →
    e.connections.Updated connections → Outline now e e'
  | removed {connections : Slab (Connection Server)} {schedules : Nat → Schedule} {retiring : List Handle}
      {events : List EndpointEvent} (handle : Handle) (conn : Connection Server) (reason : CloseReason) :
    e' = ({ e with connections, schedules, retiring, events }.removed handle conn.role.ticket).detach handle
      conn.role.session reason now →
    e.connections.Updated connections → connections.get handle = some conn → Outline now e e'
  | expired {events : List EndpointEvent} (since : Timestamp) (session : SessionId)
      (suspended : List (Timestamp × SessionId)) :
    e' = { e with suspended, sessions := Function.update e.sessions session none, events } →
    e.suspended = (since, session) :: suspended → e.lapsed since session = true → Outline now e e'
  | skipped (since : Timestamp) (session : SessionId) (suspended : List (Timestamp × SessionId)) :
    e' = { e with suspended } → e.suspended = (since, session) :: suspended → e.lapsed since session = false →
    Outline now e e'
  | forgot (at_ : Timestamp) (id : TicketId) (redeemedExpiry : List (Timestamp × TicketId)) :
    e' = { e with redeemedExpiry, redeemed := Function.update e.redeemed id none } →
    e.redeemedExpiry = (at_, id) :: redeemedExpiry → at_ < now → Outline now e e'

theorem Turn.outline (h : Turn now e e') (hs : e.connections.Sound) : Outline now e e' := by
  cases h with
  | charged | polled => exact .kept rfl (.refl hs)
  | expired since session suspended hsuspended hlapsed => exact .expired since session suspended rfl hsuspended hlapsed
  | skipped since session suspended hsuspended hstale => exact .skipped since session suspended rfl hsuspended hstale
  | forgot at_ id redeemedExpiry hexpiry hpast => exact .forgot at_ id redeemedExpiry rfl hexpiry hpast
  | called handle call =>
    have hconns := connectionMut_updated (e := e) hs handle fun c => Connection.after_kept c call
    obtain ⟨_, _, _, heq⟩ := e.connectionMut_frame handle (·.after call)
    rw [heq] at hconns ⊢
    exact .kept rfl hconns
  | received sender datagram handle conn hget =>
    have hconns := received_updated hs now sender datagram hget
    obtain ⟨_, _, _, _, heq⟩ := e.touchPump_frame handle
      (e.connections.modify handle fun _ => (conn.handleDatagram now sender datagram).1)
    rw [heq] at hconns ⊢
    exact .kept rfl hconns
  | drained handle ready slot hready =>
    have hconns := drainOne_updated now (e := { e with ready }) hs handle slot
    obtain ⟨_, _, _, _, heq⟩ := ({ e with ready } : Endpoint).drainOne_frame handle now slot
    rw [heq] at hconns ⊢
    exact .kept rfl hconns
  | serviced slot hdue =>
    have hconns := service_updated now (e := { e with timers := (e.timers.popDue now).1 }) hs slot
    obtain ⟨_, _, _, _, heq⟩ := ({ e with timers := (e.timers.popDue now).1 } : Endpoint).service_frame now slot
    rw [heq] at hconns ⊢
    exact .kept rfl hconns
  | retired handle retiring hretiring =>
    have hpumped := pumpEvents_updated (e := { e with retiring }) hs handle
    unfold retire
    dsimp only
    obtain ⟨_, _, _, hpump⟩ := ({ e with retiring } : Endpoint).pumpEvents_frame handle
    rw [hpump] at hpumped ⊢
    split
    · exact .kept rfl hpumped
    next conn hget => exact .removed handle conn _ rfl hpumped hget

/-- **What a turn does to the connections**: each stays what it was, or is
removed. -/
theorem Turn.thinned (h : Turn now e e') (hs : e.connections.Sound) : e.connections.Thinned e'.connections := by
  cases h.outline hs with
  | kept heq hconns => exact .updated (by rw [heq]; exact hconns)
  | removed handle conn reason heq hconns hget =>
    refine .died handle hconns ?_
    rw [heq, detach_connections]
    rfl
  | expired since session suspended heq => exact .updated (by rw [heq]; exact .refl hs)
  | skipped since session suspended heq => exact .updated (by rw [heq]; exact .refl hs)
  | forgot at_ id redeemedExpiry heq => exact .updated (by rw [heq]; exact .refl hs)

/-! ## Whole runs -/

/-- The slab is sound and no larger than ids can name, and each connection
still has the id its handle derives. -/
structure Routed (e : Endpoint) : Prop where
  sound : e.connections.Sound
  capacity_le : e.connections.capacity ≤ ConnectionId.slots
  ids : ∀ handle conn, e.connections.get handle = some conn → conn.id = e.connIdOf handle

theorem connIdOf_congr (h : e'.fixed = e.fixed) (handle : Handle) : e'.connIdOf handle = e.connIdOf handle := by
  simp only [fixed, Prod.mk.injEq] at h
  simp only [connIdOf, shard, h.1]

theorem Turn.routed (hturn : Turn now e e') (h : e.Routed) : e'.Routed := by
  have hthin := hturn.thinned h.sound
  refine ⟨hthin.sound, hthin.capacity_eq ▸ h.capacity_le, fun handle conn hget => ?_⟩
  obtain ⟨c, hc, hkept⟩ := hthin.get_some hget
  rw [connIdOf_congr hturn.fixed_eq]
  exact hkept.id_eq.trans (h.ids handle c hc)

theorem admit_routed (h : e.Routed) (sender : SocketAddr) (cookie : Cookie) :
    (e.admitPlayer suite now sender cookie).1.Routed := by
  have hids := connIdOf_congr (admit_fixed suite e now sender cookie)
  rcases admit_cases suite now h.sound sender cookie with heq | ⟨s, handle, heq, hborn⟩
  · have hs : e.connections.Updated (e.admitPlayer suite now sender cookie).1.connections := by
      rw [heq]
      exact admitted_updated h.sound cookie
    refine ⟨hs.sound, hs.capacity_eq ▸ h.capacity_le, fun handle conn hget => ?_⟩
    obtain ⟨c, hc, hkept⟩ := hs.get_some hget
    rw [hids]
    exact hkept.id_eq.trans (h.ids handle c hc)
  · have hs : (e.admitPlayer suite now sender cookie).1.connections = s := by rw [heq, settled_connections]
    refine ⟨by rw [hs]; exact hborn.sound, by rw [hs, hborn.capacity_eq]; exact h.capacity_le, fun h' conn hget => ?_⟩
    rw [hs] at hget
    rw [hids]
    rcases hborn.get_some hget with ⟨rfl, rfl⟩ | ⟨-, c, hc, hkept⟩
    · rfl
    · exact hkept.id_eq.trans (h.ids h' c hc)

theorem new_routed (config : EndpointConfig) (backendKey : Key) (channels : ChannelSet) (hasher : SourceKey → Nat) :
    (new config backendKey channels hasher).Routed where
  sound := Slab.withCapacity_sound ..
  capacity_le := Nat.min_le_right ..
  ids handle conn hget := by cases hget

theorem after_routed (e : Endpoint) (op : EndpointOp) (h : e.Routed) : (e.after suite op).Routed :=
  after_keeps suite (fun _ _ _ hturn h => hturn.routed h) (fun _ sender _ cookie _ _ h => admit_routed h sender cookie) e
    op h

/-- Turns bring no connection. -/
theorem Turns.get_some (h : Turns now e e') (hs : e.connections.Sound) {handle : Handle} {conn : Connection Server}
    (hget : e'.connections.get handle = some conn) : ∃ c, e.connections.get handle = some c ∧ c.Kept conn := by
  have hall : e'.connections.Sound ∧ ∀ handle conn, e'.connections.get handle = some conn →
      ∃ c, e.connections.get handle = some c ∧ c.Kept conn := by
    refine h.invariant (P := fun e' => e'.connections.Sound ∧ ∀ handle conn, e'.connections.get handle = some conn →
      ∃ c, e.connections.get handle = some c ∧ c.Kept conn) ?_ ⟨hs, fun _ conn h => ⟨conn, h, .refl conn⟩⟩
    rintro e₁ e₂ hturn ⟨hs₁, hall⟩
    refine ⟨(hturn.thinned hs₁).sound, fun handle conn hget => ?_⟩
    obtain ⟨c₁, hc₁, hkept₁⟩ := (hturn.thinned hs₁).get_some hget
    obtain ⟨c, hc, hkept⟩ := hall handle c₁ hc₁
    exact ⟨c, hc, hkept.trans hkept₁⟩
  exact hall.2 handle conn hget

/-- A connection there is after a call was there before, or is the one a
response's cookie is redeemed for. -/
theorem after_get (suite : Suite) (hs : e.connections.Sound) {op : EndpointOp} {handle : Handle} {conn : Connection Server}
    (hget : (e.after suite op).connections.get handle = some conn) :
    (∃ c, e.connections.get handle = some c ∧ c.Kept conn) ∨
    ∃ now sender datagram draws cookie session, op = .handleDatagram now sender datagram draws ∧
      e.Admits suite now sender datagram cookie ∧ conn = e.accepted suite now sender cookie session handle ∧
      (e.handleDatagram suite now sender datagram draws).2.1 = .connected handle ∧
      session = ((e.paid now sender).openSession cookie).2.1 := by
  obtain ⟨now, hnow⟩ := op.exists_time
  rcases e.after_cases suite op hnow with hturns | ⟨sender, datagram, draws, cookie, hop, hadmits, heq⟩
  · exact .inl (hturns.get_some hs hget)
  · rw [hop, after, heq] at hget
    rcases admit_cases suite now (e := e.paid now sender) hs sender cookie with hfull | ⟨s, h, hdone, hborn⟩
    · rw [hfull] at hget
      exact .inl ((admitted_updated (e := e.paid now sender) hs cookie).get_some hget)
    · rw [hdone, settled_connections] at hget
      rcases hborn.get_some hget with ⟨rfl, rfl⟩ | ⟨-, hkept⟩
      · refine .inr ⟨now, sender, datagram, draws, cookie, ((e.paid now sender).openSession cookie).2.1, hop, hadmits,
          rfl, ?_, rfl⟩
        rw [heq, hdone]
      · exact .inl hkept

/-- **Only a response brings a connection**, the one its cookie is redeemed for. -/
theorem after_born (suite : Suite) (hs : e.connections.Sound) {op : EndpointOp} {handle : Handle} {conn : Connection Server}
    (hget : (e.after suite op).connections.get handle = some conn) (hnone : e.connections.get handle = none) :
    ∃ now sender datagram draws cookie session, op = .handleDatagram now sender datagram draws ∧
      e.Admits suite now sender datagram cookie ∧ conn = e.accepted suite now sender cookie session handle ∧
      (e.handleDatagram suite now sender datagram draws).2.1 = .connected handle ∧
      session = ((e.paid now sender).openSession cookie).2.1 := by
  rcases after_get suite hs hget with ⟨c, hc, -⟩ | hborn
  · exact (Option.some_ne_none c (hc.symm.trans hnone)).elim
  · exact hborn

theorem reachable_routed (h : Lts.Reachable (sys suite) e) : e.Routed := by
  refine Lts.Reach.invariant (P := Routed) ?_ ?_ h
  · rintro _ ⟨config, backendKey, channels, hasher, rfl⟩
    exact new_routed config backendKey channels hasher
  · rintro s op s' - hs - rfl
    exact after_routed s op hs

theorem Routed.index_lt (h : e.Routed) {handle : Handle} {conn : Connection Server}
    (hget : e.connections.get handle = some conn) : handle.index < ConnectionId.slots :=
  Nat.lt_of_lt_of_le (h.sound.index_lt (by rw [hget]; rfl)) h.capacity_le

/-- An id names the slot it was derived from, so only one live connection. -/
theorem Routed.handle_of_id (h : e.Routed) {handle : Handle} {conn : Connection Server}
    (hget : e.connections.get handle = some conn) :
    e.connections.handleAt (ConnectionId.slot conn.id) = some handle := by
  rw [h.ids handle conn hget, connIdOf, connIdFor, ConnectionId.slot_new (h.index_lt hget)]
  exact h.sound.handleAt_iff.2 ⟨rfl, by rw [hget]; rfl⟩

theorem routePayload_found (h : e.Routed) (sender : SocketAddr) {datagram : List UInt8} {header : Header} {len : Nat}
    (hheader : Header.decode datagram = .ok (header, len)) {handle : Handle} {conn : Connection Server}
    (hget : e.connections.get handle = some conn) (hid : conn.id = header.connId) :
    e.routePayload now sender datagram = e.deliver now sender datagram handle conn := by
  have hfound : (e.connections.handleAt (ConnectionId.slot header.connId)).filter
      (fun handle => e.connIdOf handle = header.connId) = some handle := by
    rw [← hid, h.handle_of_id hget]
    exact Option.filter_some_pos (decide_eq_true (h.ids handle conn hget).symm)
  unfold routePayload
  rw [hheader]
  dsimp only
  rw [hfound]
  dsimp only
  rw [hget]

theorem routePayload_unknown (h : e.Routed) (sender : SocketAddr) {datagram : List UInt8} {header : Header} {len : Nat}
    (hheader : Header.decode datagram = .ok (header, len))
    (hnone : ∀ handle conn, e.connections.get handle = some conn → conn.id ≠ header.connId) :
    e.routePayload now sender datagram = (e, .dropped .unknownConnection, []) := by
  unfold routePayload
  rw [hheader]
  dsimp only
  split
  · rfl
  next handle hfound =>
    split
    · rfl
    next conn hget =>
      have hid : e.connIdOf handle = header.connId := of_decide_eq_true (Option.filter_eq_some_iff.1 hfound).2
      exact absurd ((h.ids handle conn hget).trans hid) (hnone handle conn hget)

theorem handleDatagram_payload {datagram : List UInt8} (hkind : peekKind datagram = some .payload)
    (howner : ownerShard datagram = some e.shard) (sender : SocketAddr) (draws : Draws) :
    e.handleDatagram suite now sender datagram draws = e.routePayload now sender datagram := by
  unfold handleDatagram dispatch
  rw [howner, hkind]
  dsimp only
  rw [if_neg fun h => h rfl]

/-- **Payload routing is exact.** In every reachable state the live
connections have different ids, each the one its slot and generation derive. A
payload datagram this shard owns, whose header parses, is handed to the
connection with its id, and is dropped as unknown exactly when there is none. -/
theorem routing_exact (h : Lts.Reachable (sys suite) e) :
    (∀ handle handle' conn conn', e.connections.get handle = some conn → e.connections.get handle' = some conn' →
      conn.id = conn'.id → handle = handle') ∧
    (∀ handle conn, e.connections.get handle = some conn → conn.id = connIdFor handle e.shard) ∧
    ∀ now sender datagram draws header len, peekKind datagram = some .payload →
      Header.decode datagram = .ok (header, len) → ownerShard datagram = some e.shard →
      (∀ handle conn, e.connections.get handle = some conn → conn.id = header.connId →
        e.handleDatagram suite now sender datagram draws = e.deliver now sender datagram handle conn) ∧
      ((e.handleDatagram suite now sender datagram draws).2.1 = .dropped .unknownConnection ↔
        ∀ handle conn, e.connections.get handle = some conn → conn.id ≠ header.connId) := by
  have hrouted := reachable_routed h
  refine ⟨fun a b c c' ha hb hid => ?_, hrouted.ids, fun now sender datagram draws header len hkind hheader howner => ?_⟩
  · have hat := hrouted.handle_of_id ha
    rw [hid, hrouted.handle_of_id hb] at hat
    exact (Option.some.inj hat).symm
  · rw [handleDatagram_payload hkind howner]
    refine ⟨fun handle conn hget hid => routePayload_found hrouted sender hheader hget hid, fun hdropped => ?_,
      fun hnone => ?_⟩
    · intro handle conn hget hid
      rw [routePayload_found hrouted sender hheader hget hid] at hdropped
      rcases e.deliver_cases now sender datagram hget with heq | heq
      · rw [heq] at hdropped
        cases hdropped
      · rw [heq] at hdropped
        cases hdropped
    · rw [routePayload_unknown hrouted sender hheader hnone]

/-! ### One handshake, over the clear cipher -/

def clearSuite : Suite := fun _ => .clear

def backend : Key := ⟨List.replicate 32 1, rfl⟩

/-- A group of one, with room for two players. -/
def alone : EndpointConfig where
  capacity := 2
  limiterSlots := 1
  transport := .default
  shard := ⟨0, ⟨1, by decide, by decide⟩, ⟨List.replicate 32 2, rfl⟩, rfl⟩

def idle : Endpoint := .new alone backend orderedOnly fun _ => 0

/-- A new player's ticket. -/
def visitor : Ticket where
  expiresAt := .zero
  clientId := 7
  session := none
  keys := ⟨backend, backend⟩
  userData := .empty

def drawn : BlobNonce := ⟨List.replicate nonceLen 3, rfl⟩

/-- The request that presents `ticket`, sealed under `draw`. -/
def requestOf (ticket : Ticket) (draw : BlobNonce) : List UInt8 :=
  ((encryptTicket .clear (some draw) ticket maxBlob).bind (encodeRequest · 5)).getD []

/-- The challenge a request from `sender` is answered with. -/
def answerOf (e : Endpoint) (sender : SocketAddr) (request : List UInt8) : List UInt8 :=
  match (e.handleDatagram clearSuite .zero sender request ⟨9, some drawn⟩).2.1 with
  | .respond _ out => out
  | _ => []

/-- The response that echoes a challenge's cookie. -/
def echoOf (challenge : List UInt8) : List UInt8 :=
  ((handshakeBlob challenge).bind (encodeHandshake .response)).getD []

/-- The player's response, and the endpoint once it has arrived. -/
def response : List UInt8 := echoOf (answerOf idle (.v4 1 1) (requestOf visitor drawn))

def greeted : Endpoint := idle.after clearSuite (.handleDatagram .zero (.v4 1 1) response ⟨0, none⟩)

theorem idle_reachable : Lts.Reachable (sys clearSuite) idle := .start ⟨alone, backend, _, _, rfl⟩

theorem greeted_reachable : Lts.Reachable (sys clearSuite) greeted := .step idle_reachable trivial (by rw [greeted]; rfl)

/-- The handle of the first connection an endpoint accepts. -/
def first : Handle := ⟨0, 1, rfl⟩

/-- A bare payload header for the connection `id`. -/
def payloadFor (id : ConnectionId) : List UInt8 := (⟨.payload, id, 0, none, 0, 0⟩ : Header).bytes

theorem decode_payloadFor (id : ConnectionId) :
    Header.decode (payloadFor id) = .ok (⟨.payload, id, 0, none, 0, 0⟩, (payloadFor id).length) := by
  have hread := Header.decode_bytes (h := ⟨.payload, id, 0, none, 0, 0⟩) (fun _ => ⟨rfl, rfl⟩) []
  rwa [List.append_nil] at hread

theorem routing_greeted :
    (∃ conn, greeted.connections.get first = some conn ∧ conn.id = connIdFor first 0 ∧
      greeted.handleDatagram clearSuite .zero (.v4 1 1) (payloadFor (connIdFor first 0)) ⟨0, none⟩ =
        greeted.deliver .zero (.v4 1 1) (payloadFor (connIdFor first 0)) first conn) ∧
    ∀ handle conn, greeted.connections.get handle = some conn → conn.id ≠ connIdFor ⟨0, 3, rfl⟩ 0 := by
  obtain ⟨-, hids, hroute⟩ := routing_exact greeted_reachable
  have hlive : (greeted.connections.get first).isSome = true := by decide +kernel
  obtain ⟨conn, hget⟩ := Option.isSome_iff_exists.1 hlive
  have hid := hids first conn hget
  have hshard : greeted.shard = 0 := by decide +kernel
  rw [hshard] at hid
  refine ⟨⟨conn, hget, hid, ?_⟩, ?_⟩
  · exact (hroute .zero (.v4 1 1) _ ⟨0, none⟩ _ _ (by decide) (decode_payloadFor (connIdFor first 0))
      (by rw [hshard]; decide)).1 first conn hget hid
  · exact (hroute .zero (.v4 1 1) _ ⟨0, none⟩ _ _ (by decide) (decode_payloadFor (connIdFor ⟨0, 3, rfl⟩ 0))
      (by rw [hshard]; decide)).2.1 (by decide +kernel)

end Endpoint
end HexNet
