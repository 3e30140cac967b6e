/-
Who looks at a connection next. A live connection is queued to transmit, or
queued for removal, or has a timer for its deadline. The flags beside the slab
say which, by slot, while the queues hold handles that may be stale: a handle
given out once is never given out again, so a stale one names no connection
and can be passed over (`Slab.Aged`).

`Scheduled but e` is the invariant with one connection let off: a call changes
a connection, and only then queues it or sets its timer.
-/
import HexNet.Sessions
import HexNet.SlabRuns
import HexNet.TimerFacts

namespace HexNet

theorem Slab.isSome_get_modify {T : Type} {s : Slab T} (h : s.Sound) (handle : Handle) (f : T → T) (h' : Handle) :
    ((s.modify handle f).get h').isSome = (s.get h').isSome := by
  rw [Slab.get_modify h]
  split
  next heq => rw [heq, Option.isSome_map]
  · rfl

namespace Endpoint

variable {suite : Suite} {e e' : Endpoint} {now : Timestamp} {but : Option Handle} {handle : Handle}
  {conn : Connection Server}

/-- A connection is there. -/
def Live (e : Endpoint) (handle : Handle) : Prop := (e.connections.get handle).isSome = true

theorem live_of_get (h : e.connections.get handle = some conn) : e.Live handle := by rw [Live, h]; rfl

/-- Every live connection is queued or has its timer, the one let off apart. -/
structure Scheduled (but : Option Handle) (e : Endpoint) : Prop where
  sound : e.connections.Sound
  valid : e.timers.Valid
  slots_eq : e.timers.positions.length = e.connections.capacity
  once : ∀ handle, e.Live handle → e.ready.count handle = (e.schedules handle.index).ready.toNat
  queued : ∀ handle, e.Live handle → (e.schedules handle.index).retiring = true → handle ∈ e.retiring
  armed : ∀ handle conn, e.connections.get handle = some conn → but ≠ some handle →
    (e.schedules handle.index).ready = false → handle ∉ e.retiring →
    ∃ t, conn.nextTimeout = some t ∧ ⟨t, handle.index⟩ ∈ e.timers.entries
  owned : ∀ entry ∈ e.timers.entries, ∃ handle, e.Live handle ∧ handle.index = entry.slot
  aged : ∀ handle ∈ e.ready ++ e.retiring, e.connections.Aged handle

namespace Scheduled

theorem weaken (h : Scheduled none e) (handle : Handle) : Scheduled (some handle) e :=
  { h with armed := fun handle' conn hget _ => h.armed handle' conn hget nofun }

/-- A connection queued to transmit needs no timer. -/
theorem cover (h : Scheduled (some handle) e) (hready : (e.schedules handle.index).ready = true) : Scheduled none e :=
  { h with
    armed := fun handle' conn hget _ hidle => by
      refine h.armed handle' conn hget (fun heq => ?_) hidle
      cases heq
      rw [hready] at hidle
      cases hidle }

/-- Connections changed in place, by which no deadline moved but that of the one
let off. -/
theorem replaced (h : Scheduled but e) {connections : Slab (Connection Server)} {schedules : Nat → Schedule}
    (hsound : connections.Sound) (hcap : connections.capacity = e.connections.capacity)
    (haged : ∀ handle, e.connections.Aged handle → connections.Aged handle)
    (hlive : ∀ handle, (connections.get handle).isSome = (e.connections.get handle).isSome)
    (hsame : ∀ handle conn', connections.get handle = some conn' → but ≠ some handle →
      ∃ conn, e.connections.get handle = some conn ∧ conn'.nextTimeout = conn.nextTimeout)
    (hflags : ∀ i, (schedules i).ready = (e.schedules i).ready ∧ (schedules i).retiring = (e.schedules i).retiring)
    (he : e'.connections = connections ∧ e'.schedules = schedules ∧ e'.timers = e.timers ∧ e'.ready = e.ready ∧
      e'.retiring = e.retiring) : Scheduled but e' := by
  obtain ⟨rfl, rfl, htimers, hready, hretiring⟩ := he
  have hlive' : ∀ handle, e'.Live handle ↔ e.Live handle := fun handle => by rw [Live, hlive, Live]
  refine ⟨hsound, htimers ▸ h.valid, ?_, fun handle hl => ?_, fun handle hl hflag => ?_, ?_, ?_, ?_⟩
  · rw [htimers, hcap]
    exact h.slots_eq
  · rw [hready, (hflags handle.index).1]
    exact h.once handle ((hlive' handle).1 hl)
  · rw [hretiring]
    exact h.queued handle ((hlive' handle).1 hl) ((hflags handle.index).2 ▸ hflag)
  · intro handle conn' hget hbut hidle hnot
    obtain ⟨conn, hconn, htimeout⟩ := hsame handle conn' hget hbut
    rw [htimeout, htimers]
    exact h.armed handle conn hconn hbut ((hflags handle.index).1 ▸ hidle) (hretiring ▸ hnot)
  · intro entry hentry
    rw [htimers] at hentry
    obtain ⟨handle, hl, hslot⟩ := h.owned entry hentry
    exact ⟨handle, (hlive' handle).2 hl, hslot⟩
  · rw [hready, hretiring]
    exact fun handle hmem => haged handle (h.aged handle hmem)

/-- What the scheduler does not look at. -/
theorem congr (h : Scheduled but e)
    (he : e'.connections = e.connections ∧ e'.schedules = e.schedules ∧ e'.timers = e.timers ∧ e'.ready = e.ready ∧
      e'.retiring = e.retiring) : Scheduled but e' :=
  h.replaced h.sound rfl (fun _ h => h) (fun _ => rfl) (fun _ conn hget _ => ⟨conn, hget, rfl⟩) (fun _ => ⟨rfl, rfl⟩) he

theorem modify (h : Scheduled (some handle) e) (f : Connection Server → Connection Server) :
    Scheduled (some handle) { e with connections := e.connections.modify handle f } := by
  refine h.replaced (Slab.modify_sound h.sound handle f) ?_ (fun _ hage => hage.modify handle f)
    (Slab.isSome_get_modify h.sound handle f) (fun handle' conn' hget hbut => ?_) (fun _ => ⟨rfl, rfl⟩)
    ⟨rfl, rfl, rfl, rfl, rfl⟩
  · unfold Slab.modify
    split <;> rfl
  · rw [Slab.get_modify h.sound, if_neg fun heq => hbut (by rw [heq])] at hget
    exact ⟨conn', hget, rfl⟩

/-- Taking a connection's events moves no deadline. -/
theorem pumpEvents (h : Scheduled but e) (handle : Handle) : Scheduled but (e.pumpEvents handle) := by
  unfold Endpoint.pumpEvents
  split
  · exact h
  next conn hget =>
    refine h.replaced (Slab.modify_sound h.sound handle _) ?_ (fun _ hage => hage.modify handle _)
      (Slab.isSome_get_modify h.sound handle _) (fun handle' conn' hget' _ => ?_) (fun i => ?_) ⟨rfl, rfl, rfl, rfl, rfl⟩
    · unfold Slab.modify
      split <;> rfl
    · rw [Slab.get_modify h.sound] at hget'
      split at hget'
      next heq =>
        obtain ⟨c, hc, rfl⟩ := Option.map_eq_some_iff.1 hget'
        exact ⟨c, heq ▸ hc, rfl⟩
      · exact ⟨conn', hget', rfl⟩
    · dsimp only
      cases lastClosed conn.events.items with
      | none => exact ⟨rfl, rfl⟩
      | some closedWith =>
        dsimp only
        by_cases hi : i = handle.index
        · rw [hi, Function.update_self]
          exact ⟨rfl, rfl⟩
        · rw [Function.update_of_ne hi]
          exact ⟨rfl, rfl⟩

/-- Two live connections are of two slots. -/
theorem index_ne (h : Scheduled but e) {a b : Handle} (ha : e.Live a) (hb : e.Live b) (hne : a ≠ b) :
    a.index ≠ b.index := fun hindex => hne (h.sound.unique ha hb hindex)

theorem touch_ready (e : Endpoint) (handle : Handle) : ((e.touch handle).schedules handle.index).ready = true := by
  unfold Endpoint.touch
  dsimp only
  split
  next hready => exact hready
  · dsimp only
    rw [Function.update_self]

/-- Queueing a connection makes up for whatever was done to it. -/
theorem touch (h : Scheduled (some handle) e) (hlive : e.Live handle) : Scheduled none (e.touch handle) := by
  suffices hthere : Scheduled (some handle) (e.touch handle) from hthere.cover (touch_ready e handle)
  unfold Endpoint.touch
  dsimp only
  split
  · exact h
  next hidle =>
    have hidle : (e.schedules handle.index).ready = false := by simpa using hidle
    refine { h with once := fun handle' hl => ?_, queued := fun handle' hl hflag => ?_, armed := ?_, aged := ?_ }
    · have hcount := h.once handle' hl
      dsimp only
      rw [List.count_append, hcount]
      by_cases heq : handle' = handle
      · subst heq
        rw [hidle, Function.update_self]
        simp
      · rw [Function.update_of_ne (h.index_ne hl hlive heq), List.count_singleton,
          beq_eq_false_iff_ne.2 (Ne.symm heq)]
        simp
    · refine h.queued handle' hl ?_
      dsimp only at hflag
      by_cases heq : handle'.index = handle.index
      · rw [heq, Function.update_self] at hflag
        rw [heq]
        exact hflag
      · rwa [Function.update_of_ne heq] at hflag
    · intro handle' conn hget hbut hidle' hnot
      dsimp only at hidle'
      rw [Function.update_of_ne (h.index_ne (live_of_get hget) hlive fun heq => hbut (by rw [heq]))] at hidle'
      exact h.armed handle' conn hget hbut hidle' hnot
    · intro handle' hmem
      simp only [List.mem_append, List.mem_singleton] at hmem
      rcases hmem with (hmem | rfl) | hmem
      · exact h.aged handle' (List.mem_append_left _ hmem)
      · exact h.sound.aged hlive
      · exact h.aged handle' (List.mem_append_right _ hmem)

theorem connectionMut (h : Scheduled none e) (handle : Handle) (f : Connection Server → Connection Server) :
    Scheduled none (e.connectionMut handle f) := by
  unfold Endpoint.connectionMut
  split
  next hcontains =>
    have htouched := (h.weaken handle).touch ((h.sound.contains_iff handle).1 hcontains)
    exact ((htouched.weaken handle).modify f).cover (touch_ready e handle)
  · exact h

/-- What a call does to a connection, before it is queued. -/
theorem touched (h : Scheduled (some handle) e) (hlive : e.Live handle) (f : Connection Server → Connection Server) :
    Scheduled none (({ e with connections := e.connections.modify handle f }.touch handle).pumpEvents handle) := by
  refine ((h.modify f).touch ?_).pumpEvents handle
  rw [Live, Slab.isSome_get_modify h.sound]
  exact hlive

/-! ### Draining -/

/-- A connection that has transmitted gets its timer, or leaves for good. -/
theorem rearm (h : Scheduled (some handle) e) (hget : e.connections.get handle = some conn) :
    Scheduled none (e.rearm handle conn.nextTimeout) := by
  have hlive := live_of_get hget
  unfold Endpoint.rearm
  split
  next t ht =>
    have hslot : handle.index < e.timers.positions.length := by
      rw [h.slots_eq]
      exact h.sound.index_lt hlive
    obtain ⟨hvalid, hlen, hmem⟩ := TimerHeap.set_spec h.valid hslot t
    refine { h with valid := hvalid, slots_eq := hlen.trans h.slots_eq, armed := ?_, owned := fun entry hentry => ?_ }
    · intro handle' conn' hget' _ hidle hnot
      by_cases heq : handle' = handle
      · subst heq
        cases hget.symm.trans hget'
        exact ⟨t, ht, (hmem _).2 (.inl rfl)⟩
      · obtain ⟨t', ht', hentry⟩ := h.armed handle' conn' hget' (fun hcon => heq (Option.some.inj hcon).symm) hidle hnot
        exact ⟨t', ht', (hmem _).2 (.inr ⟨hentry, h.index_ne (live_of_get hget') hlive heq⟩)⟩
    · rcases (hmem entry).1 hentry with rfl | ⟨hold, -⟩
      · exact ⟨handle, hlive, rfl⟩
      · exact h.owned entry hold
  next hnone =>
    obtain ⟨hvalid, hlen, hmem⟩ := TimerHeap.cancel_spec h.valid handle.index
    have hothers : ∀ handle' conn', e.connections.get handle' = some conn' → handle' ≠ handle →
        (e.schedules handle'.index).ready = false → handle' ∉ e.retiring →
        ∃ t, conn'.nextTimeout = some t ∧ ⟨t, handle'.index⟩ ∈ (e.timers.cancel handle.index).entries := by
      intro handle' conn' hget' heq hidle hnot
      obtain ⟨t', ht', hentry⟩ := h.armed handle' conn' hget' (fun hcon => heq (Option.some.inj hcon).symm) hidle hnot
      exact ⟨t', ht', (hmem _).2 ⟨hentry, h.index_ne (live_of_get hget') hlive heq⟩⟩
    have howned : ∀ entry ∈ (e.timers.cancel handle.index).entries, ∃ handle, e.Live handle ∧ handle.index = entry.slot :=
      fun entry hentry => h.owned entry ((hmem entry).1 hentry).1
    dsimp only
    split
    next hflag =>
      refine { h with valid := hvalid, slots_eq := hlen.trans h.slots_eq, armed := ?_, owned := howned }
      intro handle' conn' hget' _ hidle hnot
      refine hothers handle' conn' hget' (fun heq => hnot ?_) hidle hnot
      rw [heq]
      exact h.queued handle hlive hflag
    next hflag =>
      have hready : ∀ i, (Function.update e.schedules handle.index
          { e.schedules handle.index with retiring := true } i).ready = (e.schedules i).ready := by
        intro i
        by_cases hi : i = handle.index
        · rw [hi, Function.update_self]
        · rw [Function.update_of_ne hi]
      refine ⟨h.sound, hvalid, hlen.trans h.slots_eq, fun handle' hl => ?_, fun handle' hl hflag' => ?_, ?_, howned, ?_⟩
      · dsimp only
        rw [hready]
        exact h.once handle' hl
      · rw [List.mem_append, List.mem_singleton]
        by_cases heq : handle' = handle
        · exact .inr heq
        · dsimp only at hflag'
          rw [Function.update_of_ne (h.index_ne hl hlive heq)] at hflag'
          exact .inl (h.queued handle' hl hflag')
      · intro handle' conn' hget' _ hidle hnot
        rw [List.mem_append, List.mem_singleton, not_or] at hnot
        exact hothers handle' conn' hget' hnot.2 ((hready _).symm.trans hidle) hnot.1
      · intro handle' hmem'
        rw [← List.append_assoc, List.mem_append, List.mem_singleton] at hmem'
        rcases hmem' with hold | rfl
        · exact h.aged handle' hold
        · exact h.sound.aged hlive

theorem drainOne (h : Scheduled none e) {ready : List Handle} (hready : e.ready = handle :: ready) (slot : Packet) :
    Scheduled none ({ e with ready }.drainOne now handle slot).1 := by
  have haged : ∀ handle ∈ ready ++ e.retiring, e.connections.Aged handle := fun handle' hmem => by
    refine h.aged handle' ?_
    rw [hready]
    exact List.mem_cons_of_mem _ hmem
  have hothers : ∀ handle', e.Live handle' → handle' ≠ handle →
      ready.count handle' = (e.schedules handle'.index).ready.toNat := by
    intro handle' hl hne
    rw [← h.once handle' hl, hready, List.count_cons_of_ne (Ne.symm hne)]
  unfold Endpoint.drainOne
  dsimp only
  split
  next hnone =>
    -- a handle left behind by a connection that was removed
    refine { h with once := fun handle' hl => hothers handle' hl ?_, aged := haged }
    rintro rfl
    rw [Live, hnone] at hl
    cases hl
  next conn hget =>
    have hlive := live_of_get hget
    have hcount := h.once handle hlive
    rw [hready, List.count_cons_self] at hcount
    -- the connection was queued once, and is so no longer
    have hdrained : Scheduled (some handle) { e with
        ready
        schedules := Function.update e.schedules handle.index { e.schedules handle.index with ready := false } } := by
      refine { h with once := fun handle' hl => ?_, queued := fun handle' hl hflag => ?_, armed := ?_, aged := haged }
      · dsimp only
        by_cases heq : handle' = handle
        · subst heq
          rw [Function.update_self]
          have := Bool.toNat_le (e.schedules handle'.index).ready
          show ready.count handle' = 0
          omega
        · rw [Function.update_of_ne (h.index_ne hl hlive heq)]
          exact hothers handle' hl heq
      · refine h.queued handle' hl ?_
        dsimp only at hflag
        by_cases heq : handle'.index = handle.index
        · rw [heq, Function.update_self] at hflag
          rw [heq]
          exact hflag
        · rwa [Function.update_of_ne heq] at hflag
      · intro handle' conn' hget' hbut hidle hnot
        dsimp only at hidle
        rw [Function.update_of_ne (h.index_ne (live_of_get hget') hlive fun heq => hbut (by rw [heq]))] at hidle
        exact h.armed handle' conn' hget' nofun hidle hnot
    refine (hdrained.modify fun _ => (conn.pollTransmit now slot).1).rearm ?_
    dsimp only
    rw [Slab.get_modify h.sound, if_pos rfl, hget]
    rfl

/-! ### Timers -/

theorem serviced (h : Scheduled none e) {slot : Nat} (hdue : (e.timers.popDue now).2 = some slot) :
    Scheduled none ({ e with timers := (e.timers.popDue now).1 }.service now slot) := by
  rcases TimerHeap.popDue_spec h.valid now with ⟨hpop, -⟩ | ⟨at_, slot', hpop, hfirst, -⟩
  · rw [hpop] at hdue
    cases hdue
  · rw [hpop] at hdue ⊢
    cases hdue
    obtain ⟨handle, hlive, hslot⟩ := h.owned ⟨at_, slot⟩ (List.mem_of_getElem? hfirst)
    obtain ⟨hvalid, hlen, hmem⟩ := TimerHeap.removeAt_spec h.valid (List.getElem?_eq_some_iff.1 hfirst).1
    rw [TimerHeap.entry_eq hfirst] at hmem
    have hpopped : Scheduled (some handle) { e with timers := e.timers.removeAt 0 } := by
      refine { h with valid := hvalid, slots_eq := hlen.trans h.slots_eq, armed := ?_, owned := ?_ }
      swap
      · exact fun entry hentry => h.owned entry ((hmem entry).1 hentry).1
      intro handle' conn' hget' hbut hidle hnot
      obtain ⟨t, ht, hentry⟩ := h.armed handle' conn' hget' nofun hidle hnot
      refine ⟨t, ht, (hmem _).2 ⟨hentry, ?_⟩⟩
      dsimp only at hslot ⊢
      rw [← hslot]
      exact h.index_ne (live_of_get hget') hlive fun heq => hbut (by rw [heq])
    unfold service
    rw [show e.connections.handleAt slot = some handle from h.sound.handleAt_iff.2 ⟨hslot, hlive⟩]
    exact hpopped.touched hlive fun conn => conn.handleTimeout now

/-- A connection taken out of everything kept about it. -/
theorem removed (h : Scheduled none e) {retiring : List Handle} (hretiring : e.retiring = handle :: retiring)
    (hlive : e.Live handle) (ticketId : TicketId) :
    Scheduled none ({ e with retiring }.removed handle ticketId) := by
  obtain ⟨hvalid, hlen, hmem⟩ := TimerHeap.cancel_spec h.valid handle.index
  have hgot : ∀ handle' conn', (e.connections.remove handle).1.get handle' = some conn' →
      handle' ≠ handle ∧ e.connections.get handle' = some conn' := by
    intro handle' conn' hget
    rw [Slab.get_remove h.sound] at hget
    split at hget
    · cases hget
    next hne => exact ⟨hne, hget⟩
  have hleft : ∀ handle', ({ e with retiring }.removed handle ticketId).Live handle' →
      handle' ≠ handle ∧ e.Live handle' := by
    intro handle' hl
    obtain ⟨conn', hget⟩ := Option.isSome_iff_exists.1 hl
    exact ⟨(hgot handle' conn' hget).1, live_of_get (hgot handle' conn' hget).2⟩
  have hflags : ∀ handle', handle' ≠ handle → e.Live handle' →
      ({ e with retiring }.removed handle ticketId).schedules handle'.index = e.schedules handle'.index :=
    fun handle' hne hl => Function.update_of_ne (h.index_ne hl hlive hne) ..
  have hmem_retiring : ∀ handle', handle' ≠ handle → (handle' ∈ retiring ↔ handle' ∈ e.retiring) := fun handle' hne => by
    rw [hretiring, List.mem_cons, or_iff_right hne]
  refine ⟨Slab.remove_sound h.sound handle, hvalid, ?_, fun handle' hl => ?_, fun handle' hl hflag => ?_, ?_, ?_, ?_⟩
  · show _ = (e.connections.remove handle).1.capacity
    rw [Slab.remove_capacity h.sound]
    exact hlen.trans h.slots_eq
  · rw [hflags handle' (hleft handle' hl).1 (hleft handle' hl).2]
    exact h.once handle' (hleft handle' hl).2
  · rw [hflags handle' (hleft handle' hl).1 (hleft handle' hl).2] at hflag
    exact (hmem_retiring handle' (hleft handle' hl).1).2 (h.queued handle' (hleft handle' hl).2 hflag)
  · intro handle' conn' hget _ hidle hnot
    obtain ⟨hne, hget⟩ := hgot handle' conn' hget
    rw [hflags handle' hne (live_of_get hget)] at hidle
    obtain ⟨t, ht, hentry⟩ := h.armed handle' conn' hget nofun hidle fun hmem => hnot ((hmem_retiring handle' hne).2 hmem)
    exact ⟨t, ht, (hmem _).2 ⟨hentry, h.index_ne (live_of_get hget) hlive hne⟩⟩
  · intro entry hentry
    obtain ⟨hold, hslot⟩ := (hmem entry).1 hentry
    obtain ⟨handle', hl, hindex⟩ := h.owned entry hold
    refine ⟨handle', ?_, hindex⟩
    show ((e.connections.remove handle).1.get handle').isSome = true
    rw [Slab.get_remove h.sound, if_neg fun heq => hslot (by rw [← hindex, heq])]
    exact hl
  · intro handle' hmem
    refine Slab.Aged.remove h.sound (h.aged handle' ?_) handle
    rw [hretiring]
    simp only [List.mem_append, List.mem_cons] at hmem ⊢
    exact hmem.imp_right .inr

theorem retire (h : Scheduled none e) {retiring : List Handle} (hretiring : e.retiring = handle :: retiring) :
    Scheduled none ({ e with retiring }.retire handle now) := by
  have hpumped : ({ e with retiring } : Endpoint).pumpEvents handle = { e.pumpEvents handle with retiring } := by
    unfold Endpoint.pumpEvents
    dsimp only
    cases e.connections.get handle <;> rfl
  have hpump := h.pumpEvents handle
  have hqueue : (e.pumpEvents handle).retiring = handle :: retiring := by
    obtain ⟨_, _, _, heq⟩ := e.pumpEvents_frame handle
    rw [heq]
    exact hretiring
  unfold Endpoint.retire
  rw [hpumped]
  generalize e.pumpEvents handle = e₁ at *
  dsimp only
  split
  next hnone =>
    -- a handle whose connection is gone already
    have hne : ∀ handle', e₁.Live handle' → handle' ≠ handle := by
      rintro handle' hl rfl
      rw [Live, hnone] at hl
      cases hl
    have hmem : ∀ handle', handle' ≠ handle → (handle' ∈ retiring ↔ handle' ∈ e₁.retiring) := fun handle' hne => by
      rw [hqueue, List.mem_cons, or_iff_right hne]
    refine { hpump with queued := fun handle' hl hflag => ?_, armed := ?_, aged := fun handle' hin => hpump.aged handle' ?_ }
    · exact (hmem handle' (hne handle' hl)).2 (hpump.queued handle' hl hflag)
    · intro handle' conn' hget hbut hidle hnot
      exact hpump.armed handle' conn' hget hbut hidle fun hin => hnot ((hmem handle' (hne handle' (live_of_get hget))).2 hin)
    · rw [hqueue]
      simp only [List.mem_append, List.mem_cons] at hin ⊢
      exact hin.imp_right .inr
  next conn hget =>
    have hremoved := hpump.removed hqueue (live_of_get hget) conn.role.ticket
    generalize Endpoint.removed _ handle conn.role.ticket = gone at hremoved ⊢
    obtain ⟨_, _, _, hdetach⟩ := gone.detach_frame handle conn.role.session _ now
    rw [hdetach]
    exact hremoved.congr ⟨rfl, rfl, rfl, rfl, rfl⟩

/-- What every turn keeps. -/
theorem turn (h : Scheduled none e) (hturn : Turn now e e') : Scheduled none e' := by
  cases hturn with
  | charged | expired | skipped | forgot | polled => exact h.congr ⟨rfl, rfl, rfl, rfl, rfl⟩
  | called handle call => exact h.connectionMut handle fun conn => conn.after call
  | received sender datagram handle conn hget => exact (h.weaken handle).touched (live_of_get hget) _
  | drained handle ready slot hready => exact h.drainOne hready slot
  | serviced slot hdue => exact h.serviced hdue
  | retired handle retiring hretiring => exact h.retire hretiring

/-! ### Admitting -/

/-- A connection that takes a slot is queued at once. -/
theorem settled (h : Scheduled none e) {make : Handle → Connection Server} {connections : Slab (Connection Server)}
    (hinsert : e.connections.insertWith make = (connections, some handle)) (cookie : Cookie) (session : SessionId)
    (resumed : Bool) : Scheduled none ({ e with connections }.settled cookie session resumed handle) := by
  have hfresh := Slab.insertWith_not_aged h.sound hinsert
  rcases Slab.insertWith_spec h.sound make with heq | ⟨s, handle', heq, hsound, hcap, hnone, hindex, hget⟩
  · rw [hinsert] at heq
    cases heq
  rw [hinsert] at heq
  cases heq
  have hold : ∀ handle', handle' ≠ handle → (({ e with connections } : Endpoint).Live handle' ↔ e.Live handle') :=
    fun handle' hne => by rw [Live, Live, hget, if_neg hne]
  have hunused : ∀ handle' ∈ e.ready ++ e.retiring, handle' ≠ handle := by
    rintro handle' hmem rfl
    exact hfresh (h.aged handle' hmem)
  have hself : (connections.get handle).isSome = true := by rw [hget, if_pos rfl]; rfl
  have hborn : Scheduled (some handle) { e with
      connections, schedules := Function.update e.schedules handle.index .default } := by
    refine ⟨hsound, h.valid, h.slots_eq.trans hcap.symm, fun handle' hl => ?_, fun handle' hl hflag => ?_, ?_, ?_,
      fun handle' hmem => Slab.Aged.insertWith h.sound (h.aged handle' hmem) hinsert⟩
    · dsimp only
      by_cases heq : handle' = handle
      · subst heq
        rw [Function.update_self]
        exact List.count_eq_zero.2 fun hmem => hunused handle' (List.mem_append_left _ hmem) rfl
      · have hl := (hold handle' heq).1 hl
        rw [Function.update_of_ne (hindex handle' hl)]
        exact h.once handle' hl
    · dsimp only at hflag
      by_cases heq : handle' = handle
      · subst heq
        rw [Function.update_self] at hflag
        cases hflag
      · have hl := (hold handle' heq).1 hl
        rw [Function.update_of_ne (hindex handle' hl)] at hflag
        exact h.queued handle' hl hflag
    · intro handle' conn' hget' hbut hidle hnot
      have hne : handle' ≠ handle := fun heq => hbut (by rw [heq])
      dsimp only at hget' hidle
      rw [hget, if_neg hne] at hget'
      rw [Function.update_of_ne (hindex handle' (live_of_get hget'))] at hidle
      exact h.armed handle' conn' hget' nofun hidle hnot
    · intro entry hentry
      obtain ⟨handle', hl, hslot⟩ := h.owned entry hentry
      refine ⟨handle', (hold handle' ?_).2 hl, hslot⟩
      rintro rfl
      rw [Live, hnone] at hl
      cases hl
  exact (hborn.touch hself).congr ⟨rfl, rfl, rfl, rfl, rfl⟩

theorem admitPlayer (h : Scheduled none e) (sender : SocketAddr) (cookie : Cookie) :
    Scheduled none (e.admitPlayer suite now sender cookie).1 := by
  have htaken : Scheduled none (e.admitting cookie) := by
    have hopened : ∀ n, Scheduled none { e with nextSessionSequence := n } := fun _ =>
      h.congr ⟨rfl, rfl, rfl, rfl, rfl⟩
    exact admitting_rule cookie hopened fun n prev => (hopened n).connectionMut prev _
  rcases admit_inserts suite now h.sound sender cookie with heq | ⟨s, handle, heq, ⟨make, hinsert⟩, -⟩
  · rw [heq]
    exact htaken
  · rw [heq]
    exact htaken.settled hinsert cookie _ _

theorem new (config : EndpointConfig) (backendKey : Key) (channels : ChannelSet) (hasher : SourceKey → Nat) :
    Scheduled none (.new config backendKey channels hasher) where
  sound := Slab.withCapacity_sound ..
  valid := TimerHeap.withSlots_valid _
  slots_eq := List.length_replicate
  once _ hl := nomatch hl
  queued _ hl := nomatch hl
  armed _ _ hget := nomatch hget
  owned _ hentry := nomatch hentry
  aged _ hmem := nomatch hmem

theorem after (h : Scheduled none e) (op : EndpointOp) : Scheduled none (e.after suite op) :=
  after_keeps suite (fun _ _ _ hturn h => h.turn hturn) (fun _ sender _ cookie _ _ h => h.admitPlayer sender cookie) e op h

end Scheduled

/-! ## The next deadline -/

theorem nextTimeout_queued (h : e.ready ≠ [] ∨ e.retiring ≠ []) : e.nextTimeout = some .zero := by
  unfold nextTimeout
  refine if_pos ?_
  rw [Bool.or_eq_true, Bool.not_eq_true', Bool.not_eq_true', List.isEmpty_eq_false_iff, List.isEmpty_eq_false_iff]
  exact h

/-- The timers are asked, unless a queue is not empty. -/
theorem nextTimeout_timer (hvalid : e.timers.Valid) {entry : TimerEntry} (hentry : entry ∈ e.timers.entries) :
    ∃ t, e.nextTimeout = some t ∧ t ≤ entry.at_ := by
  unfold nextTimeout
  split
  · exact ⟨.zero, rfl, Nat.zero_le _⟩
  · cases hpeek : e.timers.peek with
    | none =>
      rw [List.head?_eq_none_iff.1 (Option.map_eq_none_iff.1 hpeek)] at hentry
      cases hentry
    | some first =>
      obtain ⟨t, ht, hle⟩ := Timestamp.earliest_le_left (a := first.1)
        (e.suspended.head?.map fun entry => entry.1.saturatingAdd resumeGrace)
      refine ⟨t, ht, Nat.le_trans hle ?_⟩
      rcases (TimerHeap.peek_spec hvalid hpeek).2 entry hentry with hlt | ⟨heq, -⟩
      · exact Nat.le_of_lt hlt
      · rw [heq]

/-- So is the front of the queue of suspended sessions. -/
theorem nextTimeout_suspended (hsorted : e.suspended.Pairwise fun a b => a.1 ≤ b.1) {entry : Timestamp × SessionId}
    (hentry : entry ∈ e.suspended) : ∃ t, e.nextTimeout = some t ∧ t ≤ entry.1.saturatingAdd resumeGrace := by
  unfold nextTimeout
  split
  · exact ⟨.zero, rfl, Nat.zero_le _⟩
  · cases hsuspended : e.suspended with
    | nil =>
      rw [hsuspended] at hentry
      cases hentry
    | cons first rest =>
      obtain ⟨t, ht, hle⟩ := Timestamp.earliest_le_right (e.timers.peek.map (·.1)) (b := first.1.saturatingAdd resumeGrace)
      refine ⟨t, ht, Timestamp.le_trans hle (Timestamp.saturatingAdd_mono ?_ resumeGrace)⟩
      rw [hsuspended] at hentry hsorted
      rcases List.mem_cons.1 hentry with rfl | hmem
      · exact Nat.le_refl _
      · exact (List.pairwise_cons.1 hsorted).1 entry hmem

/-! ## The queue of suspended sessions -/

/-- The queue is in order of suspension, none of it after `now`. -/
def SuspendedBy (now : Timestamp) (e : Endpoint) : Prop :=
  e.suspended.Pairwise (fun a b => a.1 ≤ b.1) ∧ ∀ entry ∈ e.suspended, entry.1 ≤ now

/-- A turn suspends at its own time, and takes from the front. -/
theorem SuspendedBy.turn (h : e.SuspendedBy now) (hs : e.connections.Sound) (hturn : Turn now e e') :
    e'.SuspendedBy now := by
  have hpopped : ∀ {entry}, e.suspended = entry :: e'.suspended → e'.SuspendedBy now := by
    intro entry heq
    unfold SuspendedBy at h
    rw [heq] at h
    exact ⟨(List.pairwise_cons.1 h.1).2, fun entry hmem => h.2 entry (List.mem_cons_of_mem _ hmem)⟩
  cases hturn.roster hs with
  | same _ hsuspended =>
    unfold SuspendedBy
    rw [hsuspended]
    exact h
  | detached handle conn reason _ _ _ _ hsuspended =>
    unfold SuspendedBy
    rw [hsuspended]
    rcases detach_suspended e handle conn.role.session reason now with heq | heq <;> rw [heq]
    · exact h
    · refine ⟨List.pairwise_append.2 ⟨h.1, List.pairwise_singleton .., fun a ha b hb => ?_⟩, fun entry hmem => ?_⟩
      · rw [List.mem_singleton.1 hb]
        exact h.2 a ha
      · rcases List.mem_append.1 hmem with hold | hnew
        · exact h.2 entry hold
        · rw [List.mem_singleton.1 hnew]
          exact Nat.le_refl _
  | expired since session hsuspended => exact hpopped hsuspended
  | skipped since session hsuspended => exact hpopped hsuspended

/-- Only `handleTimeout` changes the queue. -/
theorem after_suspended (hs : e.connections.Sound) {op : EndpointOp} (hop : ∀ now, op ≠ .handleTimeout now) :
    (e.after suite op).suspended = e.suspended := by
  have hmut : ∀ (e : Endpoint) (handle : Handle) f, (e.connectionMut handle f).suspended = e.suspended := by
    intro e handle f
    obtain ⟨_, _, _, heq⟩ := e.connectionMut_frame handle f
    rw [heq]
  cases op with
  | handleTimeout now => exact (hop now rfl).elim
  | pollEvent => rfl
  | connectionMut handle call => exact hmut e handle _
  | issueResumeTicket now handle ticket draw =>
    dsimp only [Endpoint.after]
    unfold issueResumeTicket
    split
    · rfl
    · split
      · exact hmut e handle _
      · rfl
  | shutdown =>
    show e.shutdown.suspended = e.suspended
    unfold shutdown
    generalize e.connections.handles = handles
    clear hs hop
    induction handles generalizing e with
    | nil => rfl
    | cons handle handles ih => exact ih.trans (hmut e handle _)
  | drainTransmits now slots =>
    show (drainTransmits now slots e).1.suspended = e.suspended
    clear hs hop
    induction slots generalizing e with
    | nil => rfl
    | cons slot slots ih =>
      rw [drainTransmits]
      split
      · rfl
      next handle ready _ =>
        obtain ⟨_, _, _, _, heq⟩ := ({ e with ready } : Endpoint).drainOne_frame handle now slot
        rw [ih, heq]
  | handleDatagram now sender datagram draws =>
    show (e.handleDatagram suite now sender datagram draws).1.suspended = e.suspended
    have hrouted : (e.routePayload now sender datagram).1.suspended = e.suspended := by
      unfold routePayload
      split
      · rfl
      · split
        · rfl
        next handle _ =>
          split
          · rfl
          next conn hget =>
            rcases e.deliver_cases now sender datagram hget with heq | heq <;> rw [heq]
            obtain ⟨_, _, _, _, hframe⟩ := e.touchPump_frame handle
              (e.connections.modify handle fun _ => (conn.handleDatagram now sender datagram).1)
            rw [hframe]
    have hspent : ∀ spent, ((e.paid now sender).answerSpent spent).1.suspended = e.suspended := by
      intro spent
      unfold answerSpent
      split
      · split
        · exact hmut (e.paid now sender) _ _
        · rfl
      · rfl
    rcases e.handleDatagram_cases (P := fun e' => e'.suspended = e.suspended) suite now sender datagram draws rfl hrouted
      (fun kind => by cases kind <;> rfl) hspent with hsame | ⟨cookie, -, heq⟩
    · exact hsame
    · rw [heq]
      exact (admit_records (e := e.paid now sender) suite now hs sender cookie).1

end Endpoint

/-! ## Runs -/

/-- An endpoint, and when its timers were last served. -/
structure Watched where
  endpoint : Endpoint
  served : Timestamp

namespace Watched

open Endpoint

variable {suite : Suite} {w : Watched}

def after (suite : Suite) (w : Watched) (op : EndpointOp) : Watched where
  endpoint := w.endpoint.after suite op
  served := match op with | .handleTimeout now => now | _ => w.served

/-- The timers are not served at a time gone by. -/
def Forward (w : Watched) : EndpointOp → Prop
  | .handleTimeout now => w.served ≤ now
  | _ => True

def sys (suite : Suite) : Lts.Sys Watched EndpointOp where
  start w := ∃ config backendKey channels hasher, w = ⟨.new config backendKey channels hasher, .zero⟩
  step w op w' := w' = w.after suite op

/-- What holds whenever the timers are served at times that do not run back. -/
structure Kept (w : Watched) : Prop where
  scheduled : Scheduled none w.endpoint
  attended : w.endpoint.Attended
  suspended : w.endpoint.SuspendedBy w.served

theorem Kept.after (h : w.Kept) (op : EndpointOp) (hforward : w.Forward op) : (w.after suite op).Kept := by
  have hattended : (w.endpoint.after suite op).connections.Sound ∧ (w.endpoint.after suite op).Attended := by
    refine after_keeps suite (P := fun e => Scheduled none e ∧ e.Attended) ?_ ?_ w.endpoint op
      ⟨h.scheduled, h.attended⟩ |>.imp_left (·.sound)
    · exact fun _ _ _ hturn hk => ⟨hk.1.turn hturn, hk.2.turn hk.1.sound hturn⟩
    · intro now sender datagram cookie e hadmits hk
      exact ⟨hk.1.admitPlayer sender cookie, hk.2.admitPlayer hk.1.sound sender hadmits.check⟩
  refine ⟨h.scheduled.after op, hattended.2, ?_⟩
  by_cases hop : ∃ now, op = .handleTimeout now
  · obtain ⟨now, rfl⟩ := hop
    have hstart : w.endpoint.SuspendedBy now :=
      ⟨h.suspended.1, fun entry hmem => Nat.le_trans (h.suspended.2 entry hmem) hforward⟩
    refine (Turns.invariant (P := fun e => Scheduled none e ∧ e.SuspendedBy now) ?_ (w.endpoint.handleTimeout_turns now)
      ⟨h.scheduled, hstart⟩).2
    exact fun e e' hturn hk => ⟨hk.1.turn hturn, hk.2.turn hk.1.sound hturn⟩
  · have hop : ∀ now, op ≠ .handleTimeout now := fun now heq => hop ⟨now, heq⟩
    have hserved : (w.after suite op).served = w.served := by
      cases op with
      | handleTimeout now => exact (hop now rfl).elim
      | _ => dsimp only [Watched.after]
    rw [hserved, SuspendedBy]
    show List.Pairwise _ (w.endpoint.after suite op).suspended ∧ ∀ entry ∈ (w.endpoint.after suite op).suspended, _
    rw [after_suspended h.scheduled.sound hop]
    exact h.suspended

theorem reach_kept (h : Lts.Reach (sys suite) Forward w) : w.Kept := by
  refine Lts.Reach.invariant (P := Kept) ?_ ?_ h
  · rintro _ ⟨config, backendKey, channels, hasher, rfl⟩
    exact ⟨.new config backendKey channels hasher, new_attended config backendKey channels hasher,
      List.Pairwise.nil, fun _ hmem => nomatch hmem⟩
  · rintro w op w' - hk hok rfl
    exact hk.after op hok

/-- The three ways a connection is not forgotten. -/
theorem Kept.connection (h : w.Kept) {handle : Handle} {conn : Connection Server}
    (hget : w.endpoint.connections.get handle = some conn) :
    (w.endpoint.ready.count handle = 1 ∧ (w.endpoint.schedules handle.index).ready = true) ∨
      handle ∈ w.endpoint.retiring ∨
      ∃ t, conn.nextTimeout = some t ∧ w.endpoint.timers.deadline handle.index = some t := by
  have honce := h.scheduled.once handle (live_of_get hget)
  cases hready : (w.endpoint.schedules handle.index).ready with
  | true =>
    rw [hready] at honce
    exact .inl ⟨honce, rfl⟩
  | false =>
    by_cases hmem : handle ∈ w.endpoint.retiring
    · exact .inr (.inl hmem)
    · obtain ⟨t, ht, hentry⟩ := h.scheduled.armed handle conn hget nofun hready hmem
      exact .inr (.inr ⟨t, ht, h.scheduled.valid.indexed.deadline_eq_some.2 hentry⟩)

/-- **No connection is forgotten by the scheduler**, whatever is called, in
whatever order, and however soon a sink is full, so long as the timers are
served at times that do not run back:
* a live connection is queued to transmit, once and flagged so, or is queued
  for removal, or has a timer for its next deadline;
* every timer is of a slot a live connection is in;
* the endpoint asks to be called no later than the next deadline of any live
  connection, nor than the end of any suspended session's grace. -/
theorem never_forgotten (h : Lts.Reach (sys suite) Forward w) :
    (∀ handle conn, w.endpoint.connections.get handle = some conn →
      ((w.endpoint.ready.count handle = 1 ∧ (w.endpoint.schedules handle.index).ready = true) ∨
        handle ∈ w.endpoint.retiring ∨
        ∃ t, conn.nextTimeout = some t ∧ w.endpoint.timers.deadline handle.index = some t) ∧
      ∃ next, w.endpoint.nextTimeout = some next ∧ ∀ t, conn.nextTimeout = some t → next ≤ t) ∧
    (∀ entry ∈ w.endpoint.timers.entries,
      ∃ handle conn, w.endpoint.connections.get handle = some conn ∧ handle.index = entry.slot) ∧
    ∀ session owner since, w.endpoint.sessions session = some ⟨owner, .suspended since⟩ →
      ∃ next, w.endpoint.nextTimeout = some next ∧ next ≤ since.saturatingAdd resumeGrace := by
  have hk := reach_kept h
  refine ⟨fun handle conn hget => ⟨hk.connection hget, ?_⟩, fun entry hentry => ?_, fun session owner since hrecord => ?_⟩
  · rcases hk.connection hget with ⟨hcount, -⟩ | hmem | ⟨t, ht, hdeadline⟩
    · refine ⟨.zero, nextTimeout_queued (.inl fun hnil => ?_), fun _ _ => Nat.zero_le _⟩
      rw [hnil] at hcount
      cases hcount
    · exact ⟨.zero, nextTimeout_queued (.inr (List.ne_nil_of_mem hmem)), fun _ _ => Nat.zero_le _⟩
    · obtain ⟨next, hnext, hle⟩ := nextTimeout_timer hk.scheduled.valid
        (hk.scheduled.valid.indexed.deadline_eq_some.1 hdeadline)
      refine ⟨next, hnext, fun t' ht' => ?_⟩
      cases ht.symm.trans ht'
      exact hle
  · obtain ⟨handle, hlive, hslot⟩ := hk.scheduled.owned entry hentry
    obtain ⟨conn, hget⟩ := Option.isSome_iff_exists.1 hlive
    exact ⟨handle, conn, hget, hslot⟩
  · have hmem := hk.attended.queued session owner since hrecord
    obtain ⟨next, hnext, hle⟩ := nextTimeout_suspended hk.suspended.1 hmem
    exact ⟨next, hnext, hle⟩

/-! ### One player -/

/-- One player admitted, and their first packet drained. -/
def attending : Watched :=
  (⟨greeted, .zero⟩ : Watched).after clearSuite (.drainTransmits .zero [Connection.blank])

theorem attending_reach : Lts.Reach (sys clearSuite) Forward attending := by
  have hidle : Lts.Reach (sys clearSuite) Forward ⟨idle, .zero⟩ := .start ⟨alone, backend, _, _, rfl⟩
  have hgreeted : Lts.Reach (sys clearSuite) Forward ⟨greeted, .zero⟩ :=
    .step hidle (a := .handleDatagram .zero (.v4 1 1) response ⟨0, none⟩) (by exact trivial) (by rw [greeted]; rfl)
  exact .step hgreeted (a := .drainTransmits .zero [Connection.blank]) (by exact trivial) (by rw [attending]; rfl)

theorem never_forgotten_attending :
    ∃ conn t, attending.endpoint.connections.get first = some conn ∧ conn.nextTimeout = some t ∧
      attending.endpoint.timers.deadline 0 = some t := by
  obtain ⟨hconns, -, -⟩ := never_forgotten attending_reach
  have hlive : (attending.endpoint.connections.get first).isSome = true := by decide +kernel
  have hready : attending.endpoint.ready.count first ≠ 1 := by decide +kernel
  have hretiring : first ∉ attending.endpoint.retiring := by decide +kernel
  obtain ⟨conn, hget⟩ := Option.isSome_iff_exists.1 hlive
  rcases (hconns first conn hget).1 with ⟨hcount, -⟩ | hmem | ⟨t, ht, hdeadline⟩
  · exact (hready hcount).elim
  · exact (hretiring hmem).elim
  · exact ⟨conn, t, hget, ht, hdeadline⟩

end Watched
end HexNet
