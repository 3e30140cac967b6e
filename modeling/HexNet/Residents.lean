/-
The connections an endpoint holds. Each is one of a connection's own runs,
whatever the endpoint does with it (`Resident`), so what holds of every
run of a connection holds of it. Those queued for removal are there, each
queued once (`Leaving`).

A connection's lifecycle runs one way: it counts its close notices down, and
closes (`after_runs`).
-/
import HexNet.Scheduling

namespace HexNet

/-! ## Which way a lifecycle runs -/

/-- What one call does to a lifecycle. -/
inductive Lifecycle.Runs : Lifecycle → Lifecycle → Prop
  | same (l : Lifecycle) : Runs l l
  | closed (l : Lifecycle) : Runs l .closed
  | begun (reason : CloseReason) : Runs .open (.closing reason closeSends)
  | counted (reason : CloseReason) {n : Nat} : 0 < n → Runs (.closing reason (n + 1)) (.closing reason n)

/-- Closed, or with at most `k` notices left to send. -/
def Lifecycle.Within (k : Nat) : Lifecycle → Prop
  | .open => False
  | .closing _ remaining => 0 < remaining ∧ remaining ≤ k
  | .closed => True

theorem Lifecycle.Within.runs {k : Nat} {l l' : Lifecycle} (h : l.Within k) (hruns : l.Runs l') : l'.Within k := by
  cases hruns with
  | same => exact h
  | closed => trivial
  | begun => exact h.elim
  | counted reason hpos => exact ⟨hpos, Nat.le_trans (Nat.le_succ _) h.2⟩

theorem Lifecycle.runs_noticed (l : Lifecycle) : l.Runs l.noticed := by
  cases l with
  | «open» | closed => exact .same _
  | closing reason remaining =>
    rw [noticed]
    split
    · exact .closed _
    next hmore =>
      obtain ⟨n, rfl⟩ : ∃ n, remaining = n + 1 := ⟨remaining - 1, by omega⟩
      exact .counted reason (by omega)

namespace Connection

variable {R : Type}

theorem close_runs (c : Connection R) (reason : CloseReason) : c.lifecycle.Runs (c.close reason).lifecycle := by
  unfold close
  split
  next hopen =>
    rw [hopen]
    exact .begun reason
  · exact .same _

variable [Role R] [LawfulRole R]

/-- Reading a packet leaves the lifecycle, or ends it. -/
theorem handleAck_readBody_life (c : Connection R) (now : Timestamp) (header : Header) (body : List UInt8) :
    ((c.handleAck now header).readBody now body).1.lifecycle = c.lifecycle ∨
      ((c.handleAck now header).readBody now body).1.lifecycle = .closed := by
  have hacked : (c.handleAck now header).lifecycle = c.lifecycle := by
    unfold handleAck
    split <;> rfl
  rw [← hacked]
  refine readFrames_rel (P := fun c c' => c'.lifecycle = c.lifecycle ∨ c'.lifecycle = .closed) (fun _ => .inl rfl)
    (fun h h' => ?_) (fun h => ?_) (fun _ => .inl rfl) _ _ _ _
  · rcases h' with h' | h'
    · rw [h']
      exact h
    · exact .inr h'
  · obtain rfl | ⟨reason, rfl⟩ | ⟨kind, r₁, hrole⟩ := readControl_cases h
    · exact .inl rfl
    · exact .inr rfl
    · exact .inl (LawfulRole.readControl hrole).lifecycle_eq

theorem handleDatagram_runs (c : Connection R) (now : Timestamp) (sender : SocketAddr) (datagram : List UInt8) :
    c.lifecycle.Runs (c.handleDatagram now sender datagram).1.lifecycle := by
  unfold handleDatagram
  split
  · exact .same _
  · split
    · exact .same _
    next crypto opened _ =>
      have hread := handleAck_readBody_life { c with crypto, lastReceived := now } now opened.header opened.body
      have hgo : ∀ {l}, (({ c with crypto, lastReceived := now }.handleAck now opened.header).readBody now
          opened.body).1.lifecycle.Runs l → c.lifecycle.Runs l := by
        intro l hruns
        rcases hread with heq | heq
        · rwa [heq] at hruns
        · rw [heq] at hruns
          cases hruns <;> exact .closed _
      unfold handleOpened
      dsimp only
      split
      · exact hgo (close_runs _ _)
      · refine hgo ?_
        dsimp only
        rw [received_lifecycle]
        exact .same _

theorem handleTimeout_runs (c : Connection R) (now : Timestamp) :
    c.lifecycle.Runs (c.handleTimeout now).lifecycle := by
  unfold handleTimeout
  split
  · exact .same _
  · split
    · exact .closed _
    · unfold runTimers
      dsimp only
      rw [(LawfulRole.onTimeout _ _).lifecycle_eq]
      split <;> exact .same _

omit [Role R] [LawfulRole R] in
theorem pollTransmit_runs {c : Connection R} (h : c.channels.Intact) (now : Timestamp) (out : Packet) :
    c.lifecycle.Runs (c.pollTransmit now out).1.lifecycle := by
  rcases pollTransmit_cases h now out with ⟨-, heq⟩ | ⟨-, hbuilds⟩
  · rw [heq]
    exact .same _
  · generalize c.pollTransmit now out = r at hbuilds
    cases hbuilds with
    | aborted => exact .same _
    | @built filled staged new _ sealed =>
      rw [transmitted_lifecycle]
      exact c.lifecycle.runs_noticed

variable [OwnOps R]

/-- **A lifecycle runs one way.** -/
theorem after_runs {c : Connection R} (h : c.channels.Intact) (call : Call R) :
    c.lifecycle.Runs (c.after call).lifecycle := by
  cases call with
  | send channel payload => exact .same _
  | pollTransmit now out => exact pollTransmit_runs h now out
  | handleDatagram now sender datagram => exact handleDatagram_runs c now sender datagram
  | handleTimeout now => exact handleTimeout_runs c now
  | close reason => exact close_runs c reason
  | pollEvent => exact .same _
  | own op =>
    have hsame : (c.after (.own op)).lifecycle = c.lifecycle := (OwnOps.touched op c).lifecycle_eq
    rw [hsame]
    exact .same _

/-- No more notices are owed than a close begins with. -/
theorem reachable_life {c : Connection R} (h : Lts.Reachable (sys R) c) :
    c.lifecycle = .open ∨ c.lifecycle.Within closeSends := by
  refine Lts.Reach.invariant (P := fun c => c.lifecycle = .open ∨ c.lifecycle.Within closeSends) ?_ ?_ h
  · rintro _ ⟨now, id, addr, tx, rx, set, transport, owed, role, -, rfl⟩
    exact .inl rfl
  · intro c call c' hreach hc _ hstep
    have hruns := after_runs (reach_intact hreach) call
    have heq : c' = c.after call := hstep
    rw [heq]
    rcases hc with hopen | hwithin
    · rw [hopen] at hruns
      generalize (c.after call).lifecycle = l at hruns
      cases hruns with
      | same => exact .inl rfl
      | closed => exact .inr trivial
      | begun => exact .inr ⟨by decide, Nat.le_refl _⟩
    · exact .inr (hwithin.runs hruns)

end Connection

/-! ## What a connection keeps, an endpoint keeps -/

/-- Kept by every call on a connection, wherever it is held. -/
def Steady (P : Handle → Connection Server → Prop) : Prop :=
  ∀ handle c call, P handle c → P handle (c.after call)

/-- Taking every event is polling for them. -/
theorem Steady.pumped {P : Handle → Connection Server → Prop} (hP : Steady P) {handle : Handle} {c : Connection Server}
    (h : P handle c) : P handle { c with events := .empty } := by
  obtain ⟨items, hitems⟩ : ∃ items, c.events = ⟨items⟩ := ⟨c.events.items, rfl⟩
  induction items generalizing c with
  | nil =>
    have hsame : { c with events := RingQueue.empty } = c := by
      cases c
      cases hitems
      rfl
    rw [hsame]
    exact h
  | cons event items ih =>
    refine ih (c := c.after .pollEvent) (hP handle c .pollEvent h) ?_
    simp [Connection.after, Connection.pollEvent, RingQueue.pop, hitems]

theorem steady_reachable : Steady fun _ => Lts.Reachable (Connection.sys Server) := fun _ _ _ h => .step h trivial rfl

namespace Slab

/-- So is every connection there. -/
def Held (P : Handle → Connection Server → Prop) (s : Slab (Connection Server)) : Prop :=
  ∀ handle conn, s.get handle = some conn → P handle conn

variable {P : Handle → Connection Server → Prop} {s : Slab (Connection Server)}

theorem Held.modify (h : s.Held P) (hs : s.Sound) (handle : Handle) {f : Connection Server → Connection Server}
    (hf : ∀ c, s.get handle = some c → P handle (f c)) : (s.modify handle f).Held P := by
  intro handle' conn hget
  rw [get_modify hs] at hget
  split at hget
  next heq =>
    obtain ⟨c, hc, rfl⟩ := Option.map_eq_some_iff.1 hget
    rw [heq]
    exact hf c hc
  · exact h handle' conn hget

theorem Held.remove (h : s.Held P) (hs : s.Sound) (handle : Handle) : (s.remove handle).1.Held P := by
  intro handle' conn hget
  rw [get_remove hs] at hget
  split at hget
  · cases hget
  · exact h handle' conn hget

end Slab

namespace Endpoint

variable {suite : Suite} {e e' : Endpoint} {now : Timestamp} {handle : Handle} {conn : Connection Server}

section Held

variable {P : Handle → Connection Server → Prop}

theorem pumpEvents_held (hP : Steady P) (h : e.connections.Held P) (hs : e.connections.Sound) (handle : Handle) :
    (e.pumpEvents handle).connections.Held P := by
  unfold pumpEvents
  split
  · exact h
  · exact h.modify hs handle fun c hc => hP.pumped (h handle c hc)

theorem connectionMut_held (hP : Steady P) (h : e.connections.Held P) (hs : e.connections.Sound) (handle : Handle)
    (call : Connection.Call Server) : (e.connectionMut handle (·.after call)).connections.Held P := by
  unfold connectionMut
  split
  · dsimp only
    rw [touch_connections]
    exact h.modify hs handle fun c hc => hP handle c call (h handle c hc)
  · exact h

theorem touchPump_held (hP : Steady P) (connections : Slab (Connection Server)) (h : connections.Held P)
    (hs : connections.Sound) (handle : Handle) :
    (({ e with connections }.touch handle).pumpEvents handle).connections.Held P := by
  have htouched : (({ e with connections } : Endpoint).touch handle).connections = connections := touch_connections ..
  refine pumpEvents_held hP ?_ ?_ handle
  · rw [htouched]
    exact h
  · rw [htouched]
    exact hs

theorem Turn.held (hP : Steady P) (hturn : Turn now e e') (h : e.connections.Held P) (hs : e.connections.Sound) :
    e'.connections.Held P := by
  cases hturn with
  | charged | expired | skipped | forgot | polled => exact h
  | called handle call => exact connectionMut_held hP h hs handle call
  | received sender datagram handle conn hget =>
    refine touchPump_held hP _ (h.modify hs handle fun c hc => ?_) (Slab.modify_sound hs handle _) handle
    exact hP handle conn (.handleDatagram now sender datagram) (h handle conn hget)
  | drained handle ready slot hready =>
    unfold drainOne
    dsimp only
    split
    · exact h
    next conn hget =>
      rw [rearm_connections]
      exact h.modify hs handle fun c hc => hP handle conn (.pollTransmit now slot) (h handle conn hget)
  | serviced slot hdue =>
    unfold service
    dsimp only
    split
    · exact h
    next handle _ =>
      refine touchPump_held hP (e := { e with timers := (e.timers.popDue now).1 })
        (e.connections.modify handle (·.handleTimeout now)) ?_ (Slab.modify_sound hs handle _) handle
      exact h.modify hs handle fun c hc => hP handle c (.handleTimeout now) (h handle c hc)
  | retired handle retiring hretiring =>
    have hpumped := pumpEvents_held hP (e := { e with retiring }) h hs handle
    have hsound := (pumpEvents_updated (e := { e with retiring }) hs handle).sound
    unfold retire
    generalize ({ e with retiring } : Endpoint).pumpEvents handle = e₁ at hpumped hsound ⊢
    dsimp only
    split
    · exact hpumped
    · rw [detach_connections]
      exact hpumped.remove hsound handle

theorem admitted_held (hP : Steady P) (h : e.connections.Held P) (hs : e.connections.Sound) (cookie : Cookie) :
    (e.admitting cookie).connections.Held P :=
  admitting_rule (P := fun e => e.connections.Held P) cookie (fun _ => h) fun n prev =>
    connectionMut_held (e := { e with nextSessionSequence := n }) hP h hs prev (.close .replaced)

end Held

/-- Every connection an endpoint holds is of some run of a connection. -/
abbrev Resident (e : Endpoint) : Prop := e.connections.Held fun _ => Lts.Reachable (Connection.sys Server)

theorem Resident.admitPlayer (h : e.Resident) (hs : e.connections.Sound) (sender : SocketAddr) (cookie : Cookie) :
    (e.admitPlayer suite now sender cookie).1.Resident := by
  have htaken := admitted_held steady_reachable h hs cookie
  unfold Endpoint.admitPlayer
  dsimp only
  rw [← admitting]
  rcases Slab.insertWith_spec (admitted_updated hs cookie).sound
    ((e.admitting cookie).accepted suite now sender cookie (e.openSession cookie).2.1) with
    heq | ⟨s, handle, heq, -, -, -, -, hget⟩
  · rw [heq]
    exact htaken
  · rw [heq]
    dsimp only
    intro handle' conn hconn
    rw [settled_connections, hget] at hconn
    split at hconn
    · cases hconn
      exact Connection.accept_reachable ..
    · exact htaken handle' conn hconn

/-! ## Those that leave -/

/-- The connections queued for removal are there, and queued once. -/
structure Leaving (e : Endpoint) : Prop where
  nodup : e.retiring.Nodup
  live : ∀ handle ∈ e.retiring, e.Live handle
  flagged : ∀ handle ∈ e.retiring, (e.schedules handle.index).retiring = true

theorem Leaving.congr (h : e.Leaving) (hretiring : e'.retiring = e.retiring)
    (hlive : ∀ handle, e.Live handle → e'.Live handle)
    (hflags : ∀ i, (e'.schedules i).retiring = (e.schedules i).retiring) : e'.Leaving := by
  refine ⟨by rw [hretiring]; exact h.nodup, fun handle hmem => ?_, fun handle hmem => ?_⟩
  · rw [hretiring] at hmem
    exact hlive handle (h.live handle hmem)
  · rw [hretiring] at hmem
    rw [hflags]
    exact h.flagged handle hmem

theorem touch_flags (e : Endpoint) (handle : Handle) (i : Nat) :
    ((e.touch handle).schedules i).retiring = (e.schedules i).retiring := by
  unfold touch
  dsimp only
  split
  · rfl
  · by_cases hi : i = handle.index
    · simp [hi]
    · simp [Function.update_of_ne hi]

theorem pumpEvents_flags (e : Endpoint) (handle : Handle) (i : Nat) :
    ((e.pumpEvents handle).schedules i).retiring = (e.schedules i).retiring := by
  unfold pumpEvents
  split
  · rfl
  next conn _ =>
    dsimp only
    cases lastClosed conn.events.items with
    | none => rfl
    | some reason =>
      by_cases hi : i = handle.index
      · simp [hi]
      · simp [Function.update_of_ne hi]

theorem Updated.live (h : e.connections.Updated e'.connections) {handle : Handle} (hlive : e.Live handle) :
    e'.Live handle := by
  obtain ⟨conn, hget⟩ := Option.isSome_iff_exists.1 hlive
  obtain ⟨c', hc', -⟩ := h.get_kept hget
  exact live_of_get hc'

theorem Leaving.connectionMut (h : e.Leaving) (hs : e.connections.Sound) (handle : Handle) (call : Connection.Call Server) :
    (e.connectionMut handle (·.after call)).Leaving := by
  have hconns := connectionMut_updated (e := e) hs handle fun c => Connection.after_kept c call
  refine h.congr ?_ (fun _ hlive => Updated.live hconns hlive) fun i => ?_
  · obtain ⟨_, _, _, heq⟩ := e.connectionMut_frame handle (·.after call)
    rw [heq]
  · unfold Endpoint.connectionMut
    split
    · exact e.touch_flags handle i
    · rfl

/-- A connection that has transmitted is queued for removal once, if at all. -/
theorem Leaving.rearm (h : e.Leaving) (hlive : e.Live handle) (deadline : Option Timestamp) :
    (e.rearm handle deadline).Leaving := by
  unfold Endpoint.rearm
  split
  · exact h.congr rfl (fun _ hl => hl) fun _ => rfl
  · dsimp only
    split
    · exact h.congr rfl (fun _ hl => hl) fun _ => rfl
    next hflag =>
      have hnot : handle ∉ e.retiring := fun hmem => hflag (h.flagged handle hmem)
      refine ⟨?_, fun handle' hmem => ?_, fun handle' hmem => ?_⟩
      · exact List.nodup_append.2 ⟨h.nodup, List.nodup_singleton _, fun a ha b hb => by
          rw [List.mem_singleton.1 hb]
          intro heq
          exact hnot (heq ▸ ha)⟩
      · rcases List.mem_append.1 hmem with hmem | hmem
        · exact h.live handle' hmem
        · rw [List.mem_singleton.1 hmem]
          exact hlive
      · by_cases hi : handle'.index = handle.index
        · simp [hi]
        · rcases List.mem_append.1 hmem with hmem | hmem
          · simpa [Function.update_of_ne hi] using h.flagged handle' hmem
          · exact absurd (congrArg Handle.index (List.mem_singleton.1 hmem)) hi

theorem Leaving.drainOne (h : e.Leaving) (hs : e.connections.Sound) (handle : Handle) (slot : Packet) :
    (e.drainOne now handle slot).1.Leaving := by
  unfold Endpoint.drainOne
  split
  · exact h
  next conn hget =>
    have hlive : ∀ handle', e.Live handle' →
        ((e.connections.modify handle fun _ => (conn.pollTransmit now slot).1).get handle').isSome = true := by
      intro handle' hl
      rw [Slab.isSome_get_modify hs]
      exact hl
    have hdrained : ({ e with
        schedules := Function.update e.schedules handle.index { e.schedules handle.index with ready := false }
        connections := e.connections.modify handle fun _ => (conn.pollTransmit now slot).1 } : Endpoint).Leaving := by
      refine h.congr rfl hlive fun i => ?_
      by_cases hi : i = handle.index
      · simp [hi]
      · simp [Function.update_of_ne hi]
    exact hdrained.rearm (hlive handle (live_of_get hget)) _

/-- The first in the queue is removed, and the rest are others. -/
theorem Leaving.retire (h : e.Leaving) (hs : e.connections.Sound) {retiring : List Handle}
    (hretiring : e.retiring = handle :: retiring) : ({ e with retiring }.retire handle now).Leaving := by
  have hpumped := pumpEvents_updated (e := { e with retiring }) hs handle
  obtain ⟨hnot, hnodup⟩ := List.nodup_cons.1 (hretiring ▸ h.nodup)
  have hothers : ∀ handle' ∈ retiring, handle' ∈ e.retiring ∧ handle' ≠ handle := by
    intro handle' hmem
    refine ⟨by rw [hretiring]; exact List.mem_cons_of_mem _ hmem, ?_⟩
    rintro rfl
    exact hnot hmem
  have hlive : ∀ handle' ∈ retiring, (({ e with retiring } : Endpoint).pumpEvents handle).Live handle' :=
    fun handle' hmem => Updated.live (e := { e with retiring }) hpumped (h.live handle' (hothers handle' hmem).1)
  have hflags : ∀ handle' ∈ retiring,
      ((({ e with retiring } : Endpoint).pumpEvents handle).schedules handle'.index).retiring = true := by
    intro handle' hmem
    rw [pumpEvents_flags]
    exact h.flagged handle' (hothers handle' hmem).1
  have hqueue : (({ e with retiring } : Endpoint).pumpEvents handle).retiring = retiring := by
    obtain ⟨_, _, _, heq⟩ := ({ e with retiring } : Endpoint).pumpEvents_frame handle
    rw [heq]
  unfold Endpoint.retire
  generalize ({ e with retiring } : Endpoint).pumpEvents handle = e₁ at *
  dsimp only
  split
  · exact ⟨by rw [hqueue]; exact hnodup, by rw [hqueue]; exact hlive, by rw [hqueue]; exact hflags⟩
  next conn hget =>
    obtain ⟨_, _, _, hdetach⟩ := (e₁.removed handle conn.role.ticket).detach_frame handle conn.role.session
      (e₁.schedules handle.index).closedWith now
    rw [hdetach]
    refine ⟨by show e₁.retiring.Nodup; rw [hqueue]; exact hnodup, fun handle' hmem => ?_, fun handle' hmem => ?_⟩
    · have hmem : handle' ∈ retiring := hqueue ▸ hmem
      show ((e₁.connections.remove handle).1.get handle').isSome = true
      rw [Slab.get_remove hpumped.sound, if_neg (hothers handle' hmem).2]
      exact hlive handle' hmem
    · have hmem : handle' ∈ retiring := hqueue ▸ hmem
      have hindex : handle'.index ≠ handle.index := fun hi =>
        (hothers handle' hmem).2 (hpumped.sound.unique (hlive handle' hmem) (live_of_get hget) hi)
      show (Function.update e₁.schedules handle.index .default handle'.index).retiring = true
      rw [Function.update_of_ne hindex]
      exact hflags handle' hmem

theorem Leaving.turn (h : e.Leaving) (hs : e.connections.Sound) (hturn : Turn now e e') : e'.Leaving := by
  have htouchPump : ∀ (e : Endpoint) (handle : Handle) (i : Nat),
      (((e.touch handle).pumpEvents handle).schedules i).retiring = (e.schedules i).retiring := fun e handle i =>
    ((e.touch handle).pumpEvents_flags handle i).trans (e.touch_flags handle i)
  cases hturn with
  | charged | expired | skipped | forgot | polled => exact h.congr rfl (fun _ hl => hl) fun _ => rfl
  | called handle call => exact h.connectionMut hs handle call
  | received sender datagram handle conn hget =>
    refine h.congr ?_ (fun _ hl => Updated.live (received_updated hs now sender datagram hget) hl) (htouchPump _ handle)
    obtain ⟨_, _, _, _, heq⟩ := e.touchPump_frame handle
      (e.connections.modify handle fun _ => (conn.handleDatagram now sender datagram).1)
    rw [heq]
  | drained handle ready slot hready =>
    exact Leaving.drainOne (e := { e with ready }) ⟨h.nodup, h.live, h.flagged⟩ hs handle slot
  | serviced slot hdue =>
    have hconns := service_updated now (e := { e with timers := (e.timers.popDue now).1 }) hs slot
    refine h.congr ?_ (fun _ hl => Updated.live (e := { e with timers := (e.timers.popDue now).1 }) hconns hl) fun i => ?_
    · obtain ⟨_, _, _, _, heq⟩ := ({ e with timers := (e.timers.popDue now).1 } : Endpoint).service_frame now slot
      rw [heq]
    · unfold service
      split
      · rfl
      · exact htouchPump _ _ i
  | retired handle retiring hretiring => exact h.retire hs hretiring

/-- A connection that takes a slot shares it with none that is there. -/
theorem Leaving.settled (h : e.Leaving) (hs : e.connections.Sound) {make : Handle → Connection Server}
    {connections : Slab (Connection Server)} (hinsert : e.connections.insertWith make = (connections, some handle))
    (cookie : Cookie) (session : SessionId) (resumed : Bool) :
    ({ e with connections }.settled cookie session resumed handle).Leaving := by
  rcases Slab.insertWith_spec hs make with heq | ⟨s, handle', heq, -, -, -, hindex, hget⟩
  · rw [hinsert] at heq
    cases heq
  rw [hinsert] at heq
  cases heq
  have hplaced : ({ e with
      connections, schedules := Function.update e.schedules handle.index .default } : Endpoint).Leaving := by
    refine ⟨h.nodup, fun handle' hmem => ?_, fun handle' hmem => ?_⟩
    · show (connections.get handle').isSome = true
      rw [hget]
      split
      · rfl
      · exact h.live handle' hmem
    · show (Function.update e.schedules handle.index .default handle'.index).retiring = true
      rw [Function.update_of_ne (hindex handle' (h.live handle' hmem))]
      exact h.flagged handle' hmem
  obtain ⟨schedules, ready, htouch⟩ := touch_frame { e with
    connections, schedules := Function.update e.schedules handle.index .default } handle
  have hflags := touch_flags { e with
    connections, schedules := Function.update e.schedules handle.index .default } handle
  unfold Endpoint.settled
  dsimp only
  rw [htouch] at hflags ⊢
  exact hplaced.congr rfl (fun _ hl => hl) hflags

theorem Leaving.admitPlayer (h : e.Leaving) (hs : e.connections.Sound) (sender : SocketAddr) (cookie : Cookie) :
    (e.admitPlayer suite now sender cookie).1.Leaving := by
  have htaken : (e.admitting cookie).Leaving := by
    have hopened : ∀ n, ({ e with nextSessionSequence := n } : Endpoint).Leaving := fun _ =>
      h.congr rfl (fun _ hl => hl) fun _ => rfl
    exact admitting_rule cookie hopened fun n prev => (hopened n).connectionMut hs prev (.close .replaced)
  rcases admit_inserts suite now hs sender cookie with heq | ⟨s, handle, heq, ⟨make, hinsert⟩, -⟩
  · rw [heq]
    exact htaken
  · rw [heq]
    exact htaken.settled (admitted_updated hs cookie).sound hinsert cookie _ _

/-! ## Only the closed leave -/

/-- What a turn does to the queue: one more that has closed, or one fewer that
is gone. -/
theorem Turn.retiring_cases (hturn : Turn now e e') (hs : e.connections.Sound) : e'.retiring = e.retiring ∨
    (∃ handle, e'.retiring = e.retiring ++ [handle] ∧
      ∀ conn, e'.connections.get handle = some conn → conn.nextTimeout = none) ∨
    ∃ handle, e.retiring = handle :: e'.retiring ∧ ¬ e'.Live handle := by
  cases hturn with
  | charged | expired | skipped | forgot | polled => exact .inl rfl
  | called handle call =>
    obtain ⟨_, _, _, heq⟩ := e.connectionMut_frame handle (·.after call)
    rw [heq]
    exact .inl rfl
  | received sender datagram handle conn hget =>
    obtain ⟨_, _, _, _, heq⟩ := e.touchPump_frame handle
      (e.connections.modify handle fun _ => (conn.handleDatagram now sender datagram).1)
    rw [heq]
    exact .inl rfl
  | serviced slot hdue =>
    obtain ⟨_, _, _, _, heq⟩ := ({ e with timers := (e.timers.popDue now).1 } : Endpoint).service_frame now slot
    rw [heq]
    exact .inl rfl
  | drained handle ready slot hready =>
    unfold drainOne
    dsimp only
    split
    · exact .inl rfl
    next conn hget =>
      cases hdeadline : (conn.pollTransmit now slot).1.nextTimeout with
      | some t => exact .inl rfl
      | none =>
        unfold rearm
        dsimp only
        split
        · exact .inl rfl
        · refine .inr (.inl ⟨handle, rfl, fun conn' hget' => ?_⟩)
          dsimp only at hget'
          rw [Slab.get_modify hs, if_pos rfl, hget] at hget'
          cases hget'
          exact hdeadline
  | retired handle retiring hretiring =>
    have hpumped := pumpEvents_updated (e := { e with retiring }) hs handle
    have hqueue : (({ e with retiring } : Endpoint).pumpEvents handle).retiring = retiring := by
      obtain ⟨_, _, _, heq⟩ := ({ e with retiring } : Endpoint).pumpEvents_frame handle
      rw [heq]
    refine .inr (.inr ⟨handle, ?_⟩)
    unfold retire
    generalize ({ e with retiring } : Endpoint).pumpEvents handle = e₁ at hpumped hqueue ⊢
    dsimp only
    split
    next hnone =>
      refine ⟨by rw [hqueue]; exact hretiring, ?_⟩
      rw [Live, hnone]
      exact Bool.false_ne_true
    next conn hget =>
      obtain ⟨_, _, _, hdetach⟩ := (e₁.removed handle conn.role.ticket).detach_frame handle conn.role.session
        (e₁.schedules handle.index).closedWith now
      rw [hdetach]
      refine ⟨by show e.retiring = handle :: e₁.retiring; rw [hqueue]; exact hretiring, ?_⟩
      show ¬ ((e₁.connections.remove handle).1.get handle).isSome = true
      rw [Slab.get_remove hpumped.sound, if_pos rfl]
      exact Bool.false_ne_true

/-- A connection that has no deadline has closed. -/
theorem Connection.closed_of_nextTimeout {c : Connection Server} (h : c.nextTimeout = none) : c.lifecycle = .closed := by
  unfold Connection.nextTimeout at h
  split at h
  next hclosed => exact hclosed
  · revert h
    dsimp only
    cases Timestamp.earliest c.transmitAt (Timestamp.earliest c.delivery.nextTimeout (Timestamp.earliest
      (Role.nextDeadline c) (some (c.delivery.lastEliciting.saturatingAdd c.liveness.keepalive)))) <;> nofun

/-- Every connection queued for removal has closed. -/
abbrev Finished (e : Endpoint) : Prop :=
  e.connections.Held fun handle c => handle ∈ e.retiring → c.lifecycle = .closed

theorem steady_closed (handles : List Handle) : Steady fun handle c =>
    Lts.Reachable (Connection.sys Server) c ∧ (handle ∈ handles → c.lifecycle = .closed) := by
  intro handle c call h
  refine ⟨.step h.1 trivial rfl, fun hmem => ?_⟩
  have hruns := Connection.after_runs (Connection.reach_intact h.1) call
  rw [h.2 hmem] at hruns
  generalize (c.after call).lifecycle = l at hruns
  cases hruns <;> rfl

theorem Finished.turn (h : e.Finished) (hresident : e.Resident) (hs : e.connections.Sound) (hturn : Turn now e e') :
    e'.Finished := by
  have hheld := hturn.held (steady_closed e.retiring)
    (fun handle conn hget => ⟨hresident handle conn hget, h handle conn hget⟩) hs
  intro handle conn hget hmem
  have hold := (hheld handle conn hget).2
  rcases hturn.retiring_cases hs with heq | ⟨last, heq, hnone⟩ | ⟨first, heq, -⟩
  · rw [heq] at hmem
    exact hold hmem
  · rw [heq] at hmem
    rcases List.mem_append.1 hmem with hmem | hmem
    · exact hold hmem
    · rw [List.mem_singleton.1 hmem] at hget
      exact Connection.closed_of_nextTimeout (hnone conn hget)
  · exact hold (by rw [heq]; exact List.mem_cons_of_mem _ hmem)

theorem settled_retiring (e : Endpoint) (cookie : Cookie) (session : SessionId) (resumed : Bool) (handle : Handle) :
    (e.settled cookie session resumed handle).retiring = e.retiring := by
  obtain ⟨_, _, heq⟩ := touch_frame { e with schedules := Function.update e.schedules handle.index .default } handle
  unfold settled
  dsimp only
  rw [heq]

theorem Finished.admitPlayer (h : e.Finished) (hresident : e.Resident) (hleaving : e.Leaving) (hs : e.connections.Sound)
    (sender : SocketAddr) (cookie : Cookie) : (e.admitPlayer suite now sender cookie).1.Finished := by
  have hheld := admitted_held (steady_closed e.retiring)
    (fun handle conn hget => ⟨hresident handle conn hget, h handle conn hget⟩) hs cookie
  have hqueue : (e.admitting cookie).retiring = e.retiring := by
    obtain ⟨_, _, _, heq⟩ := e.admitting_frame cookie
    rw [heq]
  rcases admit_inserts suite now hs sender cookie with heq | ⟨s, handle, heq, ⟨make, hinsert⟩, -⟩
  · rw [heq]
    intro handle' conn hget hmem
    exact (hheld handle' conn hget).2 (hqueue ▸ hmem)
  · have hupdated := admitted_updated hs cookie
    rcases Slab.insertWith_spec hupdated.sound make with hfull | ⟨_, _, heq', -, -, -, hindex, hget⟩
    · rw [hinsert] at hfull
      cases hfull
    · rw [hinsert] at heq'
      cases heq'
      rw [heq]
      intro handle' conn hconn hmem
      have hold : handle' ∈ e.retiring := by
        rw [← hqueue]
        rw [settled_retiring] at hmem
        exact hmem
      rw [settled_connections] at hconn
      dsimp only at hconn
      rw [hget] at hconn
      -- one that was queued was there, so it is not the one that came
      rw [if_neg] at hconn
      · exact (hheld handle' conn hconn).2 hold
      · rintro rfl
        exact hindex _ (Updated.live hupdated (hleaving.live _ hold)) rfl

/-! ## Whole runs -/

/-- What holds of the connections whatever is called. -/
structure Housed (e : Endpoint) : Prop where
  scheduled : Scheduled none e
  resident : e.Resident
  leaving : e.Leaving
  finished : e.Finished

theorem Housed.turn (h : e.Housed) (hturn : Turn now e e') : e'.Housed :=
  ⟨h.scheduled.turn hturn, hturn.held steady_reachable h.resident h.scheduled.sound,
    h.leaving.turn h.scheduled.sound hturn, h.finished.turn h.resident h.scheduled.sound hturn⟩

theorem new_housed (config : EndpointConfig) (backendKey : Key) (channels : ChannelSet) (hasher : SourceKey → Nat) :
    (new config backendKey channels hasher).Housed :=
  ⟨.new config backendKey channels hasher, fun _ _ hget => (by cases hget),
    ⟨List.nodup_nil, fun _ hmem => (by cases hmem), fun _ hmem => (by cases hmem)⟩, fun _ _ hget => (by cases hget)⟩

theorem Housed.admitPlayer (h : e.Housed) (sender : SocketAddr) (cookie : Cookie) :
    (e.admitPlayer suite now sender cookie).1.Housed :=
  have hs := h.scheduled.sound
  ⟨h.scheduled.admitPlayer sender cookie, h.resident.admitPlayer hs sender cookie, h.leaving.admitPlayer hs sender cookie,
    h.finished.admitPlayer h.resident h.leaving hs sender cookie⟩

theorem Housed.after (h : e.Housed) (op : EndpointOp) : (e.after suite op).Housed :=
  after_keeps suite (P := Housed) (fun _ _ _ hturn h => h.turn hturn)
    (fun _ sender _ cookie _ _ h => h.admitPlayer sender cookie) e op h

/-- **What every run of an endpoint keeps.** -/
theorem reachable_housed (h : Lts.Reachable (sys suite) e) : e.Housed := by
  refine Lts.Reach.invariant (P := Housed) ?_ ?_ h
  · rintro _ ⟨config, backendKey, channels, hasher, rfl⟩
    exact new_housed config backendKey channels hasher
  · rintro e op _ - he - rfl
    exact he.after op

end Endpoint

end HexNet
