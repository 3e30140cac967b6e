/-
An endpoint that is shut down empties itself. A round serves the timers and
then drains into a sink with room for every connection that is ready; anything
may be called before it, and between the two, that admits no one.

Serving leaves no deadline behind, and a closing connection's deadline has
always come, so in each round each one that still owes notices sends one
(`Round.run_ending`). When none is owed all have closed, and a drain queues
those that have for removal; from then on a round removes a batch
(`Round.run_spent`).
-/
import HexNet.Residents

namespace HexNet

/-! ## A closing connection -/

theorem Lifecycle.Within.noticed {k : Nat} {l : Lifecycle} (h : l.Within (k + 1)) : l.noticed.Within k := by
  cases l with
  | «open» => exact h.elim
  | closed => trivial
  | closing reason remaining =>
    have hle : remaining ≤ k + 1 := h.2
    rw [Lifecycle.noticed]
    split
    · trivial
    · exact ⟨by omega, by omega⟩

namespace Connection

variable {R : Type}

theorem transmitAt_closing {c : Connection R} {reason : CloseReason} {remaining : Nat}
    (h : c.lifecycle = .closing reason remaining) : c.transmitAt = some .zero := by
  simp [transmitAt, isClosing, h]

theorem earliest_zero_left (b : Option Timestamp) : Timestamp.earliest (some .zero) b = some .zero := by
  cases b with
  | none => rfl
  | some t => simp [Timestamp.earliest, Timestamp.ext_iff, Timestamp.min_nanos, Timestamp.zero]

theorem earliest_zero_right (a : Option Timestamp) : Timestamp.earliest a (some .zero) = some .zero := by
  cases a with
  | none => rfl
  | some t => simp [Timestamp.earliest, Timestamp.ext_iff, Timestamp.min_nanos, Timestamp.zero]

/-- Its deadline has always come. -/
theorem nextTimeout_closing [Role R] {c : Connection R} {reason : CloseReason} {remaining : Nat}
    (h : c.lifecycle = .closing reason remaining) : c.nextTimeout = some .zero := by
  unfold nextTimeout
  rw [transmitAt_closing h, if_neg (by rw [h]; nofun)]
  dsimp only
  rw [earliest_zero_left, earliest_zero_right]

/-- A poll sends one of the notices still owed. -/
theorem pollTransmit_counts {c : Connection R} (hintact : c.channels.Intact) {k : Nat} (h : c.lifecycle.Within (k + 1))
    (now : Timestamp) (out : Packet) : (c.pollTransmit now out).1.lifecycle.Within k := by
  cases hlife : c.lifecycle with
  | «open» =>
    rw [hlife] at h
    exact h.elim
  | closed =>
    have hruns := pollTransmit_runs hintact now out
    rw [hlife] at hruns
    generalize (c.pollTransmit now out).1.lifecycle = l at hruns
    cases hruns <;> trivial
  | closing reason remaining =>
    have hlife' : (c.assessed now).lifecycle = .closing reason remaining := hlife
    rcases pollTransmit_cases hintact now out with ⟨hidle, -⟩ | ⟨-, hbuilds⟩
    · rw [transmitDue, transmitAt_closing hlife'] at hidle
      simp [Timestamp.zero, Timestamp.le_iff] at hidle
    · generalize c.pollTransmit now out = r at hbuilds
      cases hbuilds with
      | aborted _ hbare =>
        have hframes := hbare.controlFrames_eq
        simp [controlFrames, closeFrames, hlife'] at hframes
      | @built filled staged new _ sealed _ _ _ =>
        rw [transmitted_lifecycle]
        exact h.noticed

end Connection

namespace Endpoint

variable {suite : Suite} {e e' : Endpoint} {now : Timestamp} {handle : Handle} {k : Nat}

/-! ## Serving the timers -/

/-- No deadline is behind. -/
def Current (now : Timestamp) (e : Endpoint) : Prop := ∀ entry ∈ e.timers.entries, now < entry.at_

theorem serviceDue_current (now : Timestamp) {fuel : Nat} (hvalid : e.timers.Valid)
    (hfuel : e.timers.entries.length ≤ fuel) :
    (serviceDue now fuel e).Current now ∧ (serviceDue now fuel e).timers.Valid ∧
      (serviceDue now fuel e).retiring = e.retiring := by
  induction fuel generalizing e with
  | zero =>
    refine ⟨fun entry hentry => ?_, hvalid, rfl⟩
    rw [serviceDue, List.eq_nil_of_length_eq_zero (Nat.le_zero.1 hfuel)] at hentry
    cases hentry
  | succ fuel ih =>
    rw [serviceDue]
    rcases TimerHeap.popDue_spec hvalid now with ⟨heq, hlater⟩ | ⟨at_, slot, heq, hfirst, -⟩
    · rw [heq]
      exact ⟨hlater, hvalid, rfl⟩
    · have hpos : 0 < e.timers.entries.length := (List.getElem?_eq_some_iff.1 hfirst).1
      have hless := TimerHeap.removeAt_length_lt hvalid hpos
      obtain ⟨hvalid', -⟩ := TimerHeap.removeAt_spec hvalid hpos
      rw [heq]
      obtain ⟨_, _, _, _, hserviced⟩ := service_frame { e with timers := e.timers.removeAt 0 } now slot
      dsimp only
      rw [hserviced]
      exact ih hvalid' (by show (e.timers.removeAt 0).entries.length ≤ fuel; omega)

theorem retire_timers (hvalid : e.timers.Valid) (handle : Handle) (now : Timestamp) :
    (e.retire handle now).timers.Valid ∧ (e.retire handle now).retiring = e.retiring ∧
      ∀ entry ∈ (e.retire handle now).timers.entries, entry ∈ e.timers.entries := by
  obtain ⟨_, _, _, hpump⟩ := e.pumpEvents_frame handle
  unfold retire
  dsimp only
  rw [hpump]
  split
  · exact ⟨hvalid, rfl, fun _ h => h⟩
  · obtain ⟨_, _, _, hdetach⟩ := detach_frame (removed _ handle _) handle _ _ now
    rw [hdetach]
    obtain ⟨hvalid', -, hmem⟩ := TimerHeap.cancel_spec hvalid handle.index
    exact ⟨hvalid', rfl, fun entry hentry => ((hmem entry).1 hentry).1⟩

/-- A batch of the connections queued for removal is gone from the queue. -/
theorem reap_current (h : e.Current now) (hvalid : e.timers.Valid) (batch : Nat) :
    (reap now batch e).Current now ∧ (reap now batch e).retiring = e.retiring.drop batch := by
  induction batch generalizing e with
  | zero => exact ⟨h, rfl⟩
  | succ batch ih =>
    rw [reap]
    split
    next hnil =>
      refine ⟨h, ?_⟩
      rw [hnil, List.drop_nil]
    next handle retiring hcons =>
      obtain ⟨hvalid', hqueue, hmem⟩ := retire_timers (e := { e with retiring }) hvalid handle now
      obtain ⟨hcurrent, hdrop⟩ := ih (fun entry hentry => h entry (hmem entry hentry)) hvalid'
      refine ⟨hcurrent, ?_⟩
      rw [hdrop, hqueue, hcons, List.drop_succ_cons]

theorem expireSessions_timers (now : Timestamp) (fuel batch : Nat) (e : Endpoint) :
    (expireSessions now fuel batch e).timers = e.timers ∧ (expireSessions now fuel batch e).retiring = e.retiring := by
  induction fuel generalizing batch e with
  | zero => exact ⟨rfl, rfl⟩
  | succ fuel ih =>
    rw [expireSessions]
    split
    · exact ⟨rfl, rfl⟩
    · split
      · split
        · exact ih ..
        · exact ih ..
      · exact ⟨rfl, rfl⟩

theorem forgetExpiredTickets_timers (now : Timestamp) (fuel : Nat) (e : Endpoint) :
    (forgetExpiredTickets now fuel e).timers = e.timers ∧ (forgetExpiredTickets now fuel e).retiring = e.retiring := by
  induction fuel generalizing e with
  | zero => exact ⟨rfl, rfl⟩
  | succ fuel ih =>
    rw [forgetExpiredTickets]
    split
    · exact ⟨rfl, rfl⟩
    · split
      · exact ih ..
      · exact ⟨rfl, rfl⟩

/-- What serving the timers does to the queues. -/
theorem handleTimeout_current (hvalid : e.timers.Valid) (now : Timestamp) :
    (e.handleTimeout now).Current now ∧ (e.handleTimeout now).retiring = e.retiring.drop reapBatch := by
  obtain ⟨hserved, hvalid', hqueue⟩ := serviceDue_current now hvalid (Nat.le_refl _)
  obtain ⟨hcurrent, hdrop⟩ := reap_current hserved hvalid' reapBatch
  unfold handleTimeout passTimers
  dsimp only
  constructor
  · intro entry hentry
    rw [(forgetExpiredTickets_timers ..).1, (expireSessions_timers ..).1] at hentry
    exact hcurrent entry hentry
  · rw [(forgetExpiredTickets_timers ..).2, (expireSessions_timers ..).2, hdrop, hqueue]

/-! ## Notices -/

/-- Every connection is closing or has closed, and owes at most `k` notices. -/
abbrev Ending (k : Nat) (e : Endpoint) : Prop := e.connections.Held fun _ c => c.lifecycle.Within k

theorem steady_within (k : Nat) : Steady fun _ c =>
    Lts.Reachable (Connection.sys Server) c ∧ c.lifecycle.Within k := fun _ _ call h =>
  ⟨.step h.1 trivial rfl, h.2.runs (Connection.after_runs (Connection.reach_intact h.1) call)⟩

theorem Ending.turn (h : e.Ending k) (hhoused : e.Housed) (hturn : Turn now e e') : e'.Ending k := fun handle conn hget =>
  (hturn.held (steady_within k) (fun handle conn hget => ⟨hhoused.resident handle conn hget, h handle conn hget⟩)
    hhoused.scheduled.sound handle conn hget).2

/-- Those that owe a notice too many are queued to transmit. -/
def Sending (k : Nat) (e : Endpoint) : Prop :=
  ∀ handle conn, e.connections.get handle = some conn →
    conn.lifecycle.Within k ∨ handle ∈ e.ready ∧ conn.lifecycle.Within (k + 1)

/-- Once no deadline is behind, each connection that still owes notices is
queued to transmit. -/
theorem Housed.sending (h : e.Housed) (hcurrent : e.Current now) (hending : e.Ending (k + 1)) : e.Sending k := by
  intro handle conn hget
  have hwithin : conn.lifecycle.Within (k + 1) := hending handle conn hget
  cases hlife : conn.lifecycle with
  | «open» =>
    rw [hlife] at hwithin
    exact hwithin.elim
  | closed => exact .inl trivial
  | closing reason remaining =>
    refine .inr ⟨?_, hlife ▸ hwithin⟩
    have honce := h.scheduled.once handle (live_of_get hget)
    by_contra hnot
    rw [List.count_eq_zero_of_not_mem hnot] at honce
    have hidle : (e.schedules handle.index).ready = false := Bool.toNat_eq_zero.1 honce.symm
    have hstays : handle ∉ e.retiring := by
      intro hmem
      have hclosed := h.finished handle conn hget hmem
      rw [hlife] at hclosed
      cases hclosed
    obtain ⟨t, ht, hentry⟩ := h.scheduled.armed handle conn hget nofun hidle hstays
    rw [Connection.nextTimeout_closing hlife] at ht
    cases ht
    exact Nat.not_lt_zero _ (hcurrent _ hentry)

/-- One turn of a drain sends a notice. -/
theorem Sending.drainOne (h : e.Sending k) (now : Timestamp) (hhoused : e.Housed) {ready : List Handle}
    (hready : e.ready = handle :: ready) (slot : Packet) :
    ({ e with ready }.drainOne now handle slot).1.Sending k ∧
      ({ e with ready }.drainOne now handle slot).1.ready = ready := by
  unfold Endpoint.drainOne
  dsimp only
  split
  next hnone =>
    refine ⟨fun handle' conn hget => ?_, rfl⟩
    refine (h handle' conn hget).imp_right fun hlate => ⟨?_, hlate.2⟩
    have hmem := hlate.1
    rw [hready] at hmem
    rcases List.mem_cons.1 hmem with rfl | hmem
    · rw [hget] at hnone
      cases hnone
    · exact hmem
  next conn hget =>
    obtain ⟨_, _, _, hframe⟩ := rearm_frame { e with
      ready
      schedules := Function.update e.schedules handle.index { e.schedules handle.index with ready := false }
      connections := e.connections.modify handle fun _ => (conn.pollTransmit now slot).1 } handle
        (conn.pollTransmit now slot).1.nextTimeout
    rw [hframe]
    refine ⟨fun handle' conn' hget' => ?_, rfl⟩
    dsimp only at hget' ⊢
    rw [Slab.get_modify hhoused.scheduled.sound] at hget'
    split at hget'
    next heq =>
      rw [hget] at hget'
      cases hget'
      have hintact := Connection.reach_intact (hhoused.resident handle conn hget)
      left
      rcases h handle conn hget with hdone | ⟨-, hlate⟩
      · exact hdone.runs (Connection.pollTransmit_runs hintact now slot)
      · exact Connection.pollTransmit_counts hintact hlate now slot
    next hne =>
      refine (h handle' conn' hget').imp_right fun hlate => ⟨?_, hlate.2⟩
      have hmem := hlate.1
      rw [hready] at hmem
      exact (List.mem_cons.1 hmem).resolve_left hne

theorem touch_keeps_ready (e : Endpoint) {handle handle' : Handle} (h : handle' ∈ e.ready) :
    handle' ∈ (e.touch handle).ready := by
  unfold touch
  dsimp only
  split
  · exact h
  · exact List.mem_append_left _ h

/-- Only a drain takes a connection from those that are ready. -/
theorem Turn.ready_cases (hturn : Turn now e e') : (∀ handle ∈ e.ready, handle ∈ e'.ready) ∨
    ∃ handle ready slot, e.ready = handle :: ready ∧ e' = ({ e with ready }.drainOne now handle slot).1 := by
  have htouchPump : ∀ (e : Endpoint) (handle : Handle), ∀ handle' ∈ e.ready,
      handle' ∈ ((e.touch handle).pumpEvents handle).ready := by
    intro e handle handle' hmem
    obtain ⟨_, _, _, heq⟩ := (e.touch handle).pumpEvents_frame handle
    rw [heq]
    exact e.touch_keeps_ready hmem
  cases hturn with
  | charged | expired | skipped | forgot | polled => exact .inl fun _ hmem => hmem
  | called handle call =>
    refine .inl fun handle' hmem => ?_
    unfold connectionMut
    split
    · exact touch_keeps_ready _ hmem
    · exact hmem
  | received sender datagram handle conn hget => exact .inl fun handle' hmem => htouchPump _ handle handle' hmem
  | drained handle ready slot hready => exact .inr ⟨handle, ready, slot, hready, rfl⟩
  | serviced slot hdue =>
    refine .inl fun handle' hmem => ?_
    unfold service
    split
    · exact hmem
    · exact htouchPump _ _ handle' hmem
  | retired handle retiring hretiring =>
    refine .inl fun handle' hmem => ?_
    obtain ⟨_, _, _, hpump⟩ := ({ e with retiring } : Endpoint).pumpEvents_frame handle
    unfold retire
    dsimp only
    rw [hpump]
    split
    · exact hmem
    · obtain ⟨_, _, _, hdetach⟩ := detach_frame (removed _ handle _) handle _ _ now
      rw [hdetach]
      exact hmem

theorem steady_sending (k : Nat) (ready : List Handle) : Steady fun handle c =>
    Lts.Reachable (Connection.sys Server) c ∧
      (c.lifecycle.Within k ∨ handle ∈ ready ∧ c.lifecycle.Within (k + 1)) := by
  intro handle c call h
  have hruns := Connection.after_runs (Connection.reach_intact h.1) call
  exact ⟨.step h.1 trivial rfl, h.2.imp (·.runs hruns) (And.imp_right (·.runs hruns))⟩

theorem Sending.turn (h : e.Sending k) (hhoused : e.Housed) (hturn : Turn now e e') : e'.Sending k := by
  rcases hturn.ready_cases with hready | ⟨handle, ready, slot, hready, rfl⟩
  · intro handle conn hget
    have hheld := hturn.held (steady_sending k e.ready)
      (fun handle conn hget => ⟨hhoused.resident handle conn hget, h handle conn hget⟩) hhoused.scheduled.sound
    exact (hheld handle conn hget).2.imp_right (And.imp_left (hready handle))
  · exact (h.drainOne now hhoused hready slot).1

/-- A drain with room for all that are ready. -/
theorem Sending.drain {slots : List Packet} (h : e.Sending k) (now : Timestamp) (hhoused : e.Housed)
    (hroom : e.ready.length ≤ slots.length) :
    (drainTransmits now slots e).1.Ending k ∧ (drainTransmits now slots e).1.ready = [] := by
  have hdone : ∀ {e : Endpoint}, e.Sending k → e.ready = [] → e.Ending k := by
    intro e h hnil handle conn hget
    rcases h handle conn hget with hdone | ⟨hmem, -⟩
    · exact hdone
    · rw [hnil] at hmem
      cases hmem
  induction slots generalizing e with
  | nil =>
    have hnil := List.eq_nil_of_length_eq_zero (Nat.le_zero.1 hroom)
    exact ⟨hdone h hnil, hnil⟩
  | cons slot slots ih =>
    rw [drainTransmits]
    split
    next hnil => exact ⟨hdone h hnil, hnil⟩
    next handle ready hready =>
      obtain ⟨hsending, hrest⟩ := h.drainOne now hhoused hready slot
      refine ih hsending (hhoused.turn (.drained e handle ready slot hready)) ?_
      rw [hrest]
      rw [hready, List.length_cons, List.length_cons] at hroom
      omega

/-! ## Removals -/

/-- Every connection is queued for removal. -/
def Spent (e : Endpoint) : Prop := ∀ handle, e.Live handle → handle ∈ e.retiring

/-- Once all have closed, a drain leaves none but in that queue. -/
theorem Housed.spent (h : e.Housed) (hending : e.Ending 0) (hready : e.ready = []) : e.Spent := by
  intro handle hlive
  obtain ⟨conn, hget⟩ := Option.isSome_iff_exists.1 hlive
  have hwithin : conn.lifecycle.Within 0 := hending handle conn hget
  have honce := h.scheduled.once handle hlive
  rw [hready, List.count_nil] at honce
  by_contra hnot
  obtain ⟨t, ht, -⟩ := h.scheduled.armed handle conn hget nofun (Bool.toNat_eq_zero.1 honce.symm) hnot
  cases hlife : conn.lifecycle with
  | «open» =>
    rw [hlife] at hwithin
    exact hwithin
  | closing reason remaining =>
    rw [hlife] at hwithin
    exact absurd hwithin.1 (by have := hwithin.2; omega)
  | closed =>
    rw [Connection.nextTimeout, if_pos hlife] at ht
    cases ht

theorem Turn.live (hturn : Turn now e e') (hs : e.connections.Sound) (hlive : e'.Live handle) : e.Live handle := by
  obtain ⟨conn', hget'⟩ := Option.isSome_iff_exists.1 hlive
  obtain ⟨conn, hget, -⟩ := (hturn.thinned hs).get_some hget'
  exact live_of_get hget

theorem Spent.turn (h : e.Spent) (hs : e.connections.Sound) (hturn : Turn now e e') : e'.Spent := by
  intro handle hlive
  have hold := h handle (hturn.live hs hlive)
  rcases hturn.retiring_cases hs with heq | ⟨last, heq, -⟩ | ⟨first, heq, hgone⟩
  · rw [heq]
    exact hold
  · rw [heq]
    exact List.mem_append_left _ hold
  · rw [heq] at hold
    rcases List.mem_cons.1 hold with rfl | hmem
    · exact absurd hlive hgone
    · exact hmem

/-- The queue holds each of them once. -/
theorem Spent.length (h : e.Spent) (hhoused : e.Housed) : e.retiring.length = e.connections.len := by
  rw [← hhoused.scheduled.sound.handles_length]
  refine ((List.perm_ext_iff_of_nodup hhoused.leaving.nodup hhoused.scheduled.sound.handles_nodup).2
    fun handle => ?_).length_eq
  rw [hhoused.scheduled.sound.mem_handles]
  exact ⟨hhoused.leaving.live handle, h handle⟩

theorem Turn.len_le (hturn : Turn now e e') (hs : e.connections.Sound) : e'.connections.len ≤ e.connections.len := by
  have hs' := (hturn.thinned hs).sound
  rw [← hs.handles_length, ← hs'.handles_length]
  refine (List.subperm_of_subset hs'.handles_nodup fun handle hmem => ?_).length_le
  exact hs.mem_handles.2 (hturn.live hs (hs'.mem_handles.1 hmem))

/-! ## Rounds -/

/-- What is kept from one turn to the next. -/
structure Emptying (k n : Nat) (e : Endpoint) : Prop where
  housed : e.Housed
  ending : e.Ending k
  few : e.connections.len ≤ n

theorem Emptying.turn {n : Nat} (h : e.Emptying k n) (hturn : Turn now e e') : e'.Emptying k n :=
  ⟨h.housed.turn hturn, h.ending.turn h.housed hturn, Nat.le_trans (hturn.len_le h.housed.scheduled.sound) h.few⟩

theorem connectionMut_get (hs : e.connections.Sound) (handle : Handle) (f : Connection Server → Connection Server)
    (handle' : Handle) : (e.connectionMut handle f).connections.get handle' =
      if handle' = handle then (e.connections.get handle).map f else e.connections.get handle' := by
  unfold connectionMut
  split
  · dsimp only
    rw [touch_connections, Slab.get_modify hs]
  next hgone =>
    split
    next heq =>
      have hnone : e.connections.get handle = none := by
        rw [hs.contains_iff] at hgone
        exact Option.not_isSome_iff_eq_none.1 hgone
      rw [heq, hnone]
      rfl
    · rfl

/-- A shutdown leaves no connection open. -/
theorem shutdown_emptying (h : e.Housed) : e.shutdown.Emptying closeSends e.connections.len := by
  have hclose : ∀ (handles : List Handle) (e : Endpoint), e.Housed →
      (∀ handle conn, e.connections.get handle = some conn → handle ∈ handles ∨ conn.lifecycle ≠ .open) →
      ∀ handle conn, (handles.foldl (fun e handle => e.connectionMut handle (·.close .serverShutdown)) e).connections.get
        handle = some conn → conn.lifecycle ≠ .open := by
    intro handles
    induction handles with
    | nil => exact fun e _ hopen handle conn hget => (hopen handle conn hget).resolve_left List.not_mem_nil
    | cons first handles ih =>
      intro e h hopen
      have hturn : Turn .zero e (e.connectionMut first (·.close .serverShutdown)) := .called e first (.close .serverShutdown)
      refine ih _ (h.turn hturn) fun handle conn hget => ?_
      rw [connectionMut_get h.scheduled.sound] at hget
      split at hget
      · obtain ⟨c, -, rfl⟩ := Option.map_eq_some_iff.1 hget
        right
        unfold Connection.close
        split
        · nofun
        next hclosed => exact hclosed
      next hne => exact (hopen handle conn hget).imp_left fun hmem => (List.mem_cons.1 hmem).resolve_left hne
  have hturns := shutdown_turns .zero e
  have hhoused : e.shutdown.Housed := hturns.invariant (P := Housed) (fun _ _ hturn h => h.turn hturn) h
  refine ⟨hhoused, fun handle conn hget => ?_, ?_⟩
  · refine (Connection.reachable_life (hhoused.resident handle conn hget)).resolve_left ?_
    refine hclose e.connections.handles e h (fun handle conn hget => .inl ?_) handle conn hget
    rw [h.scheduled.sound.mem_handles, hget]
    rfl
  · refine (hturns.invariant (P := fun e' => e'.Housed ∧ e'.connections.len ≤ e.connections.len) ?_ ⟨h, Nat.le_refl _⟩).2
    exact fun _ _ hturn hk => ⟨hk.1.turn hturn, Nat.le_trans (hturn.len_le hk.1.scheduled.sound) hk.2⟩

end Endpoint

/-! ## Rounds -/

/-- A call that can admit no one. -/
def EndpointOp.Quiet : EndpointOp → Prop
  | .handleDatagram _ _ datagram _ => peekKind datagram ≠ some .response
  | _ => True

/-- Some calls; then the timers are served; then some calls, and what is ready is
drained. -/
structure Round where
  ops : List EndpointOp
  now : Timestamp
  update : List EndpointOp
  slots : List Packet

namespace Round

open Endpoint

variable {suite : Suite} {e : Endpoint} {k n : Nat} {round : Round}

def served (suite : Suite) (e : Endpoint) (round : Round) : Endpoint :=
  (round.ops.foldl (·.after suite ·) e).handleTimeout round.now

def updated (suite : Suite) (e : Endpoint) (round : Round) : Endpoint :=
  round.update.foldl (·.after suite ·) (served suite e round)

def run (suite : Suite) (e : Endpoint) (round : Round) : Endpoint :=
  (drainTransmits round.now round.slots (updated suite e round)).1

/-- No response is handled, and the sink has room for all that are ready. -/
structure Ample (suite : Suite) (e : Endpoint) (round : Round) : Prop where
  quiet : ∀ op ∈ round.ops ++ round.update, op.Quiet
  room : (updated suite e round).ready.length ≤ round.slots.length

theorem Ample.before (h : Ample suite e round) : ∀ op ∈ round.ops, op.Quiet := fun op hop =>
  h.quiet op (List.mem_append_left _ hop)

theorem Ample.between (h : Ample suite e round) : ∀ op ∈ round.update, op.Quiet := fun op hop =>
  h.quiet op (List.mem_append_right _ hop)

/-- So it is in each of these rounds. -/
def AllAmple (suite : Suite) : Endpoint → List Round → Prop
  | _, [] => True
  | e, round :: rounds => Ample suite e round ∧ AllAmple suite (run suite e round) rounds

/-- What turns keep, calls that admit no one keep. -/
theorem quiet_keeps (suite : Suite) {P : Endpoint → Prop} (hturn : ∀ now e e', Turn now e e' → P e → P e')
    {ops : List EndpointOp}
    (hquiet : ∀ op ∈ ops, op.Quiet) (h : P e) : P (ops.foldl (·.after suite ·) e) := by
  induction ops generalizing e with
  | nil => exact h
  | cons op ops ih =>
    refine ih (fun op hop => hquiet op (List.mem_cons_of_mem _ hop)) ?_
    obtain ⟨now, hnow⟩ := op.exists_time
    rcases e.after_cases suite op hnow with hturns | ⟨sender, datagram, draws, cookie, rfl, hadmits, -⟩
    · exact hturns.invariant (hturn now) h
    · exact absurd hadmits.kind (hquiet _ List.mem_cons_self)

theorem served_keeps {P : Endpoint → Prop} (hturn : ∀ now e e', Turn now e e' → P e → P e') (hample : Ample suite e round)
    (h : P e) : P (served suite e round) :=
  (handleTimeout_turns _ round.now).invariant (hturn round.now) (quiet_keeps suite hturn hample.before h)

theorem updated_keeps {P : Endpoint → Prop} (hturn : ∀ now e e', Turn now e e' → P e → P e') (hample : Ample suite e round)
    (h : P (served suite e round)) : P (updated suite e round) := quiet_keeps suite hturn hample.between h

theorem drained_keeps {P : Endpoint → Prop} (hturn : ∀ now e e', Turn now e e' → P e → P e')
    (h : P (updated suite e round)) : P (run suite e round) :=
  (drainTransmits_turns round.now round.slots _).invariant (hturn round.now) h

/-- **In a round each connection that owes notices sends one**, and none is
left ready. -/
theorem run_ending (h : e.Emptying (k + 1) n) (hample : Ample suite e round) :
    (run suite e round).Emptying k n ∧ (run suite e round).ready = [] := by
  have hturn : ∀ now e e', Turn now e e' → Emptying (k + 1) n e → Emptying (k + 1) n e' := fun _ _ _ hturn h => h.turn hturn
  have hbefore := quiet_keeps suite hturn hample.before h
  have hserved := served_keeps hturn hample h
  have hcurrent := (handleTimeout_current hbefore.housed.scheduled.valid round.now).1
  obtain ⟨hhoused, hsending⟩ := updated_keeps (P := fun e => e.Housed ∧ e.Sending k)
    (fun _ _ _ hturn h => ⟨h.1.turn hturn, h.2.turn h.1 hturn⟩) hample
    ⟨hserved.housed, hserved.housed.sending hcurrent hserved.ending⟩
  obtain ⟨hending, hready⟩ := hsending.drain round.now hhoused hample.room
  have hrun := drained_keeps hturn (updated_keeps hturn hample hserved)
  exact ⟨⟨hrun.housed, hending, hrun.few⟩, hready⟩

/-- **Once all are queued for removal, a round removes a batch.** -/
theorem run_spent (hhoused : e.Housed) (h : e.Spent) (hample : Ample suite e round) :
    (run suite e round).Housed ∧ (run suite e round).Spent ∧
      (run suite e round).connections.len ≤ e.connections.len - reapBatch := by
  have hkept : ∀ (m : Nat) (now : Timestamp) (e' e'' : Endpoint), Turn now e' e'' →
      e'.Housed ∧ e'.Spent ∧ e'.connections.len ≤ m → e''.Housed ∧ e''.Spent ∧ e''.connections.len ≤ m :=
    fun _ _ _ _ hturn hk => ⟨hk.1.turn hturn, hk.2.1.turn hk.1.scheduled.sound hturn,
      Nat.le_trans (hturn.len_le hk.1.scheduled.sound) hk.2.2⟩
  obtain ⟨hbefore, hspent, hfew⟩ := quiet_keeps suite (hkept _) hample.before ⟨hhoused, h, Nat.le_refl _⟩
  obtain ⟨hserved, hspent', -⟩ := served_keeps (hkept _) hample ⟨hhoused, h, Nat.le_refl _⟩
  have hreaped := (handleTimeout_current hbefore.scheduled.valid round.now).2
  have hlength := hspent'.length hserved
  have hlength' := hspent.length hbefore
  have hfew' : (served suite e round).connections.len ≤ e.connections.len - reapBatch := by
    unfold served at hlength ⊢
    rw [hreaped, List.length_drop] at hlength
    omega
  exact drained_keeps (hkept _) (updated_keeps (hkept _) hample ⟨hserved, hspent', hfew'⟩)

theorem spent_empties {rounds : List Round} (hhoused : e.Housed) (h : e.Spent) (hample : AllAmple suite e rounds)
    (hlen : e.connections.len ≤ reapBatch * rounds.length) : (rounds.foldl (run suite) e).connections.len = 0 := by
  induction rounds generalizing e with
  | nil => exact Nat.le_zero.1 hlen
  | cons round rounds ih =>
    obtain ⟨hhoused', hspent, hfew⟩ := run_spent hhoused h hample.1
    refine ih hhoused' hspent hample.2 ?_
    rw [List.length_cons, Nat.mul_succ] at hlen
    omega

theorem ending_empties {rounds : List Round} (h : e.Emptying (k + 1) n) (hample : AllAmple suite e rounds)
    (hlen : n ≤ reapBatch * (rounds.length - (k + 1))) (hk : k + 1 ≤ rounds.length) :
    (rounds.foldl (run suite) e).connections.len = 0 := by
  induction k generalizing e rounds with
  | zero =>
    cases rounds with
    | nil => exact absurd hk (by simp)
    | cons round rounds =>
      obtain ⟨hrun, hready⟩ := run_ending h hample.1
      have hlen : n ≤ reapBatch * rounds.length := by simpa using hlen
      rw [List.foldl_cons]
      exact spent_empties hrun.housed (hrun.housed.spent hrun.ending hready) hample.2 (Nat.le_trans hrun.few hlen)
  | succ k ih =>
    cases rounds with
    | nil => exact absurd hk (by simp)
    | cons round rounds =>
      obtain ⟨hrun, -⟩ := run_ending h hample.1
      rw [List.length_cons, Nat.add_sub_add_right] at hlen
      rw [List.foldl_cons]
      exact ih hrun hample.2 hlen (Nat.le_of_succ_le_succ hk)

/-- Empty after `m` ample rounds. -/
def Within (suite : Suite) (m : Nat) (e : Endpoint) : Prop :=
  ∀ rounds, AllAmple suite e rounds → m ≤ rounds.length → (rounds.foldl (run suite) e).connections.len = 0

theorem Within.run {m : Nat} (h : Within suite (m + 1) e) (hample : Ample suite e round) :
    Within suite m (run suite e round) := fun rounds hrounds hlen =>
  h (round :: rounds) ⟨hample, hrounds⟩ (Nat.succ_le_succ hlen)

/-- A round for each close notice, and one for each batch. -/
theorem shutdown_within (h : e.Housed) :
    Within suite (closeSends + (e.connections.len + reapBatch - 1) / reapBatch) e.shutdown := by
  intro rounds hample hlen
  have hbatches : e.connections.len ≤ reapBatch * (rounds.length - closeSends) := by
    unfold closeSends reapBatch at *
    omega
  have hnotices : closeSends ≤ rounds.length := Nat.le_trans (Nat.le_add_right ..) hlen
  exact ending_empties (k := 2) (shutdown_emptying h) hample hbatches hnotices

/-- **A shutdown completes.** From whatever state an endpoint reaches, after a
round for each close notice and one for each batch of the connections it held,
it holds none; whatever is called between, short of a response that could admit
someone. -/
theorem shutdown_completes (h : Lts.Reachable (sys suite) e) {rounds : List Round}
    (hample : AllAmple suite e.shutdown rounds)
    (hlen : closeSends + (e.connections.len + reapBatch - 1) / reapBatch ≤ rounds.length) :
    (rounds.foldl (run suite) e.shutdown).connections.len = 0 :=
  shutdown_within (reachable_housed h) rounds hample hlen

/-- An event is polled in each round, and its sink has room for one packet. -/
def calm : Round := ⟨[], .zero, [.pollEvent], [Connection.blank]⟩

theorem calm_ample {e : Endpoint} (h : (updated suite e calm).ready.length ≤ 1) : Ample suite e calm :=
  ⟨fun op hop => by rw [List.mem_singleton.1 hop]; trivial, h⟩

/-- One player's connection is gone after four rounds. -/
theorem shutdown_completes_greeted :
    greeted.connections.len = 1 ∧ ([calm, calm, calm, calm].foldl (run clearSuite) greeted.shutdown).connections.len = 0 :=
  ⟨by decide +kernel, shutdown_completes greeted_reachable
    ⟨calm_ample (by decide +kernel), calm_ample (by decide +kernel), calm_ample (by decide +kernel),
      calm_ample (by decide +kernel), trivial⟩ (by decide +kernel)⟩

end Round
end HexNet
