/-
No message waits for an outcome that will never be reported: one marked in
flight rides in a packet the ledger still holds in flight, whatever was sent,
lost, acknowledged, probed or displaced on the way.

The mark is set in one place, where a packet is filled, and the packet's
record names the message or the message is released. Every later change takes
marks away, and a packet leaves the flight only with a notice that takes away
the marks of its record (`ledger_accounted`). What this needs is that a key
names one message: ids are thirty-two bits and wrap, and a message that takes
the id of one still pending breaks it.
-/
import HexNet.ConnectionFacts
import HexNet.Ledger

namespace HexNet

open Ack (Delivery Notice Outgoing Resolved Tracks history)

/-! ## Keys that name one message -/

namespace Channels

/-- No two pending messages have one key. -/
def Keyed (c : Channels) : Prop := (c.pending.items.map Pending.key).Nodup

theorem map_fst_queue (l : List Pending) : (queue l).map Prod.fst = l.map Pending.key := by
  rw [queue, List.map_map]
  rfl

theorem Keyed.shrinks {c c' : Channels} (h : c.Keyed) (hs : c.Shrinks c') : c'.Keyed := by
  unfold Keyed at h ⊢
  rw [← map_fst_queue] at h ⊢
  exact (hs.sublist.map Prod.fst).nodup h

theorem Keyed.unique {c : Channels} (h : c.Keyed) {m m' : Pending} (hm : m ∈ c.pending.items)
    (hm' : m' ∈ c.pending.items) (hkey : m.key = m'.key) : m = m' :=
  List.inj_on_of_nodup_map h hm hm' hkey

theorem Keyed.markLost {c : Channels} (h : c.Keyed) {key : MessageKey} {m : Pending}
    (hm : m ∈ (c.markLost key).pending.items) (hkey : m.key = key) : m.inFlight = false := by
  have hkeyed : (c.markLost key).Keyed := h.shrinks (markLost_settles c key).toShrinks
  -- the first message of that key is marked, and it is the only one
  rcases List.mem_modifyFirst hm with hold | ⟨a, -, rfl⟩
  · have hfind : (c.pending.items.find? fun m => m.key == key).isSome :=
      List.find?_isSome.2 ⟨m, hold, by simp [hkey]⟩
    obtain ⟨a, ha⟩ := Option.isSome_iff_exists.1 hfind
    have hmarked : { a with inFlight := false } ∈ (c.markLost key).pending.items := by
      exact List.mem_modifyFirst_of_find ha
    have hakey : a.key = key := by simpa using List.find?_some ha
    have := hkeyed.unique hm hmarked (hkey.trans hakey.symm)
    rw [this]
  · rfl

theorem Keyed.releasePending {c : Channels} (h : c.Keyed) {key : MessageKey} {m : Pending}
    (hm : m ∈ (c.releasePending key).pending.items) : m.key ≠ key := by
  rcases releasePending_cases c key with ⟨heq, hnone⟩ | ⟨before, x, after, hitems, hxkey, hitems', -⟩
  · rw [heq] at hm
    exact hnone m hm
  · unfold Keyed at h
    rw [hitems, List.map_append, List.map_cons, List.nodup_middle, List.nodup_cons] at h
    rw [hitems'] at hm
    intro hkey
    refine h.1 ?_
    rw [hxkey, ← hkey, ← List.map_append]
    exact List.mem_map_of_mem hm

/-- No message of that key is in flight. -/
def Free (c : Channels) (key : MessageKey) : Prop := ∀ m ∈ c.pending.items, m.inFlight = true → m.key ≠ key

theorem Free.settles {c c' : Channels} {key : MessageKey} (h : c.Free key) (hs : c.Settles c') : c'.Free key :=
  fun m hm hf => h m (hs.inFlight m hm hf) hf

/-- Freeing keys one after another frees them all. -/
theorem foldl_free {f : Channels → MessageKey → Channels} (hsettles : ∀ c k, Settles c (f c k))
    (hfree : ∀ c k, Keyed c → Free (f c k) k) (keys : List MessageKey) {c : Channels} (h : c.Keyed) :
    ∀ k ∈ keys, (keys.foldl f c).Free k := by
  induction keys generalizing c with
  | nil => simp
  | cons key keys ih =>
    intro k hk
    have hrest := ih (h.shrinks (hsettles c key).toShrinks)
    rcases List.mem_cons.1 hk with rfl | hk
    · exact (hfree c k h).settles (foldl_settles hsettles keys _)
    · exact hrest k hk

theorem Keyed.onAcked {c : Channels} (h : c.Keyed) (record : PacketRecord) :
    ∀ k ∈ record.items, (c.onAcked record).Free k :=
  foldl_free releasePending_settles (fun _ _ hk _ hm _ => hk.releasePending hm) _ h

theorem Keyed.onLost {c : Channels} (h : c.Keyed) (record : PacketRecord) :
    ∀ k ∈ record.items, (c.onLost record).Free k := by
  refine foldl_free markLost_settles (fun c k hk m hm hf hkey => ?_) _ h
  rw [hk.markLost hm hkey] at hf
  cases hf

/-- The unreliable messages of a sent packet are gone. -/
theorem Keyed.onPacketSent {c : Channels} (h : c.Keyed) (staged : PacketMessages) {x : Written}
    (hx : x ∈ staged.items) (hrel : x.reliable = false) : (c.onPacketSent staged).1.Free x.key := by
  have hgo : ∀ (l : List Written) (s : Channels × PacketRecord), s.2.items.length + l.length ≤ maxMessagesPerPacket →
      s.1.Keyed → x ∈ l → (l.foldl commitOne s).1.Free x.key := by
    intro l
    induction l with
    | nil => intro s _ _ hx; cases hx
    | cons y l ih =>
      intro s hroom hk hx
      rw [List.length_cons] at hroom
      rw [List.foldl_cons]
      have hstep := foldl_commitOne [y] s (by rw [List.length_singleton]; omega)
      rw [List.foldl_cons, List.foldl_nil] at hstep
      have hlen : (commitOne s y).2.items.length + l.length ≤ maxMessagesPerPacket := by
        have hle : (([y].filter (·.reliable)).map Written.key).length ≤ 1 := by
          rw [List.length_map]
          exact List.length_filter_le _ _
        rw [hstep.2, List.length_append]
        omega
      rcases List.mem_cons.1 hx with rfl | hx
      · have hfree : (commitOne s x).1.Free x.key := by
          rw [commitOne, hrel, if_neg Bool.false_ne_true]
          exact fun m hm _ => hk.releasePending hm
        exact hfree.settles (foldl_commitOne l _ hlen).1
      · exact ih _ hlen (hk.shrinks hstep.1.toShrinks) hx
  exact hgo staged.items (c, .empty) (by simpa using staged.le) h hx

theorem Keyed.send {c : Channels} (hintact : c.Intact) (h : c.Keyed) {channel : Nat} {payload : List UInt8}
    (hnew : ∀ m ∈ c.pending.items, m.key ≠ ⟨channel, c.nextIds channel⟩) : (c.send channel payload).1.Keyed := by
  cases hsend : c.send channel payload with
  | mk c' r =>
    cases r with
    | error e => rw [send_error hintact hsend]; exact h
    | ok u =>
      obtain ⟨r, hitems, -⟩ := send_ok hintact hsend
      unfold Keyed at h ⊢
      dsimp only
      rw [hitems, List.map_append, List.map_singleton, List.nodup_append]
      refine ⟨h, by simp, fun a ha b hb hab => ?_⟩
      rw [List.mem_singleton] at hb
      obtain ⟨m, hm, rfl⟩ := List.mem_map.1 ha
      exact hnew m hm (hab.trans hb)

theorem send_inFlight {c : Channels} (hintact : c.Intact) {channel : Nat} {payload : List UInt8} {m : Pending}
    (hm : m ∈ (c.send channel payload).1.pending.items) (hf : m.inFlight = true) : m ∈ c.pending.items := by
  cases hsend : c.send channel payload with
  | mk c' r =>
    rw [hsend] at hm
    cases r with
    | error e => rw [send_error hintact hsend] at hm; exact hm
    | ok u =>
      obtain ⟨r, hitems, -⟩ := send_ok hintact hsend
      dsimp only at hm
      rw [hitems] at hm
      rcases List.mem_append.1 hm with hm | hm
      · exact hm
      · rw [List.mem_singleton.1 hm] at hf
        cases hf

end Channels

/-! ## Packets in flight -/

namespace Connection

variable {R : Type}

/-- A packet the ledger holds in flight names `key`. -/
def Rides (d : Delivery PacketRecord ledgerSlots) (key : MessageKey) : Prop :=
  ∃ q sentAt record, d.sent.get q = some ⟨sentAt, .inFlight record⟩ ∧ key ∈ record.items

/-- Every message marked in flight is waiting for an outcome to come, and none
of an unreliable channel is. -/
structure Accounted (c : Connection R) : Prop where
  reliable : ∀ m ∈ c.channels.pending.items, ∀ kind, c.channels.kind m.channel = some kind →
    kind.isReliable = true → m.inFlight = true → Rides c.delivery m.key
  unreliable : ∀ m ∈ c.channels.pending.items, ∀ kind, c.channels.kind m.channel = some kind →
    kind.isReliable = false → m.inFlight = false

/-- What carries it: keys that name one message, and a ledger that has handed
back what it no longer holds. -/
structure Tended (c : Connection R) : Prop extends Accounted c where
  intact : c.channels.Intact
  keyed : c.channels.Keyed
  tracked : ∃ sends ns, c.delivery.Tracking sends ns
  below : ∀ l, c.delivery.largestSent = some l → l < c.crypto.nextSequence

/-- A message in flight is of a reliable channel, and rides. -/
theorem Tended.rides {c : Connection R} (h : c.Tended) {m : Pending} (hm : m ∈ c.channels.pending.items)
    (hf : m.inFlight = true) : Rides c.delivery m.key := by
  obtain ⟨kind, hkind⟩ := Option.isSome_iff_exists.1 (h.intact.wired m hm).1
  cases hrel : kind.isReliable with
  | true => exact h.reliable m hm kind hkind hrel hf
  | false =>
    rw [h.unreliable m hm kind hkind hrel] at hf
    cases hf

theorem Rides.told {d : Delivery PacketRecord ledgerSlots} {key : MessageKey} (h : Rides d key)
    {sends : List (Nat × PacketRecord)} {ns : List (Notice PacketRecord)} (t : d.Tracking sends ns) :
    ∃ q record, (q, record) ∈ sends ∧ history ns q = [] ∧ key ∈ record.items := by
  obtain ⟨q, sentAt, record, hget, hkey⟩ := h
  obtain ⟨r, hmem, hr, hnil⟩ := t.held q _ hget
  exact ⟨q, r, hmem, hnil, hr ▸ hkey⟩

/-- The notices take away the marks of the records they hand back. -/
theorem ledger_free {c : Connection R} (hk : c.channels.Keyed) (d : Delivery PacketRecord ledgerSlots)
    {ns : List (Notice PacketRecord)} {n : Notice PacketRecord} (hn : n ∈ ns) {record : PacketRecord}
    (hwhat : n.what = .acked record ∨ n.what = .lost record) :
    ∀ k ∈ record.items, (c.ledger (d, ns)).channels.Free k := by
  intro k hkey
  suffices hgo : ∀ s : Channels × Budget, s.1.Keyed →
      (ns.foldl (fun s notice => applyResolution s notice.what) s).1.Free k from hgo (c.channels, c.budget) hk
  induction ns with
  | nil => cases hn
  | cons first ns ih =>
    intro s hs
    have hfirst := (foldl_applyResolution [first] s).1
    rw [List.foldl_cons, List.foldl_nil] at hfirst
    rw [List.foldl_cons]
    rcases List.mem_cons.1 hn with rfl | hn
    · have hfree : (applyResolution s n.what).1.Free k := by
        rcases hwhat with hw | hw
        · rw [hw]
          exact hs.onAcked record k hkey
        · rw [hw]
          exact hs.onLost record k hkey
      exact hfree.settles (foldl_applyResolution ns _).1
    · exact ih hn _ (hs.shrinks hfirst.toShrinks)

/-- **One operation of the ledger**: what is marked in flight before it rides a
packet not yet told of, and after it a packet still in flight. -/
theorem ledger_rides {c : Connection R} (hk : c.channels.Keyed) {d : Delivery PacketRecord ledgerSlots}
    {sends : List (Nat × PacketRecord)} {ns more : List (Notice PacketRecord)} (t : d.Tracking sends (ns ++ more))
    (hopen : ∀ m ∈ c.channels.pending.items, m.inFlight = true →
      ∃ q record, (q, record) ∈ sends ∧ history ns q = [] ∧ m.key ∈ record.items)
    {m : Pending} (hm : m ∈ (c.ledger (d, more)).channels.pending.items) (hf : m.inFlight = true) :
    Rides d m.key := by
  have hsettles := (ledger_settles c (d, more)).1
  obtain ⟨q, record, hmem, hnil, hkey⟩ := hopen m (hsettles.inFlight m hm hf) hf
  rcases t.outcome hmem hnil with ⟨sentAt, hget⟩ | ⟨n, hn, hwhat⟩
  · exact ⟨q, sentAt, record, hget, hkey⟩
  · exact absurd rfl (ledger_free hk d hn hwhat m.key hkey m hm hf)

theorem unreliable_settles {c c' : Channels} (hs : c.Settles c')
    (h : ∀ m ∈ c.pending.items, ∀ kind, c.kind m.channel = some kind → kind.isReliable = false → m.inFlight = false) :
    ∀ m ∈ c'.pending.items, ∀ kind, c'.kind m.channel = some kind → kind.isReliable = false → m.inFlight = false := by
  intro m hm kind hkind hrel
  cases hf : m.inFlight with
  | false => rfl
  | true =>
    rw [Channels.kind, hs.set_eq] at hkind
    rw [← hf]
    exact h m (hs.inFlight m hm hf) kind hkind hrel

/-! ## Every call -/

/-- The sending half of the channels, taken apart. -/
theorem Passive.sending {c c' : Connection R} (h : c.Passive c') :
    c'.channels.set = c.channels.set ∧ c'.channels.nextIds = c.channels.nextIds ∧
      c'.channels.pending = c.channels.pending ∧ c'.channels.sendArena = c.channels.sendArena := by
  simpa [Channels.sendSide] using h.sendSide_eq

theorem Passive.flying {c c' : Connection R} (h : c.Passive c') :
    c'.delivery.sent = c.delivery.sent ∧ c'.delivery.largestSent = c.delivery.largestSent ∧
      c'.delivery.oldestUnresolved = c.delivery.oldestUnresolved ∧
      c'.delivery.largestAcked = c.delivery.largestAcked ∧ c'.delivery.lastEliciting = c.delivery.lastEliciting ∧
      c'.delivery.inFlight = c.delivery.inFlight := by
  simpa [Ack.Delivery.flight] using h.flight_eq

theorem Tended.passive {c c' : Connection R} (h : c.Tended) (hp : c.Passive c') : c'.Tended := by
  obtain ⟨hset, -, hpending, -⟩ := hp.sending
  obtain ⟨hsent, hlargest, -, -, -, hcount⟩ := hp.flying
  have hkind : ∀ channel, c'.channels.kind channel = c.channels.kind channel := fun channel => by
    rw [Channels.kind, hset]
    rfl
  refine ⟨⟨fun m hm kind hk => ?_, fun m hm kind hk => ?_⟩, h.intact.sendSide hp.sendSide_eq, ?_, ?_, ?_⟩
  · rw [hpending] at hm
    rw [hkind] at hk
    unfold Rides
    rw [hsent]
    exact h.reliable m hm kind hk
  · rw [hpending] at hm
    rw [hkind] at hk
    exact h.unreliable m hm kind hk
  · unfold Channels.Keyed
    rw [hpending]
    exact h.keyed
  · obtain ⟨sends, ns, t⟩ := h.tracked
    refine ⟨sends, ns, ?_⟩
    unfold Delivery.Tracking
    rw [hsent, hlargest, hcount]
    exact t
  · rw [hlargest, hp.sequence_eq]
    exact h.below

theorem Tended.ledger {c : Connection R} (h : c.Tended) {d : Delivery PacketRecord ledgerSlots}
    {more : List (Notice PacketRecord)}
    (ht : ∀ sends ns, c.delivery.Tracking sends ns → d.Tracking sends (ns ++ more))
    (hlargest : d.largestSent = c.delivery.largestSent) : (c.ledger (d, more)).Tended := by
  obtain ⟨sends, ns, t⟩ := h.tracked
  have hsettles := (ledger_settles c (d, more)).1
  refine ⟨⟨fun m hm _ _ _ hf => ?_, unreliable_settles hsettles h.unreliable⟩, hsettles.intact h.intact,
    h.keyed.shrinks hsettles.toShrinks, ⟨sends, _, ht sends ns t⟩, ?_⟩
  · exact ledger_rides h.keyed (ht sends ns t) (fun m hm hf => (h.rides hm hf).told t) hm hf
  · show ∀ l, d.largestSent = some l → l < c.crypto.nextSequence
    rw [hlargest]
    exact h.below

/-- What a filled and committed packet leaves in flight was in flight before it,
or is in its record. -/
theorem Filled.marks {c : Connection R} {len : Nat} {filled : Channels} {staged : PacketMessages}
    {new : List (Written × ByteRef)} {w : BitWriter} (hfilled : c.Filled len filled staged new w)
    (hkeyed : filled.Keyed) {m : Pending} (hm : m ∈ (filled.onPacketSent staged).1.pending.items)
    (hf : m.inFlight = true) :
    m ∈ c.channels.pending.items ∨ ∃ x ∈ new, x.1.key = m.key ∧ x.1.reliable = true := by
  obtain ⟨hsettles, -⟩ := Channels.onPacketSent_spec filled staged
  rcases hfilled.carrying.marked m (hsettles.inFlight m hm hf) with hold | ⟨x, hx, hkey⟩
  · exact .inl hold
  · have hstaged : x.1 ∈ staged.items := by
      rw [hfilled.carrying.staged_eq]
      exact List.mem_map_of_mem hx
    cases hrel : x.1.reliable with
    | true => exact .inr ⟨x, hx, hkey, hrel⟩
    | false => exact absurd hkey.symm (hkeyed.onPacketSent staged hstaged hrel m hm hf)

/-- A packet filled and committed: what it marked in flight is in its record. -/
theorem Tended.committed {c : Connection R} (h : c.Tended) {now : Timestamp} {len : Nat} {filled : Channels}
    {staged : PacketMessages} {new : List (Written × ByteRef)} {w : BitWriter}
    (hfilled : (c.prepared now).Filled len filled staged new w) :
    ((c.filledWith now filled).committed now { c.crypto with nextSequence := c.crypto.nextSequence + 1 } staged
      (c.elicits new)).Tended := by
  obtain ⟨sends, ns, t⟩ := h.tracked
  have hrequeued : c.channels.Settles (c.prepared now).channels := c.requeued_settles
  have hfills := hrequeued.toShrinks.trans hfilled.shrinks
  have hkeyed : filled.Keyed := h.keyed.shrinks hfills
  obtain ⟨hsettles, hrecord⟩ := Channels.onPacketSent_spec filled staged
  set sent := filled.onPacketSent staged with hsent
  set outgoing : Outgoing PacketRecord := if c.elicits new then .eliciting sent.2 else .ackOnly with houtgoing
  have t' := t.onSent now outgoing h.below
  set begun : Connection R :=
    { c.filledWith now filled with
      crypto := { c.crypto with nextSequence := c.crypto.nextSequence + 1 }, channels := sent.1 } with hbegun
  have hledger := (ledger_settles begun (c.delivery.onSent now c.crypto.nextSequence outgoing)).1
  have hkeyed' : sent.1.Keyed := hkeyed.shrinks hsettles.toShrinks
  -- what is in flight now rides a packet told of, or this one
  have hopen : ∀ m ∈ sent.1.pending.items, m.inFlight = true → ∃ q record,
      (q, record) ∈ sends ++ Delivery.tracked c.crypto.nextSequence outgoing ∧ history ns q = [] ∧
        m.key ∈ record.items := by
    intro m hm hf
    rcases hfilled.marks hkeyed hm hf with hold | ⟨x, hx, hkey, hrel⟩
    · obtain ⟨q, record, hmem, hnil, hk⟩ := (h.rides (hrequeued.inFlight m hold hf) hf).told t
      exact ⟨q, record, List.mem_append_left _ hmem, hnil, hk⟩
    · have helicits : c.elicits new = true := by
        cases new with
        | nil => cases hx
        | cons y ys => simp [elicits]
      have hfresh : c.crypto.nextSequence ∉ sends.map Prod.fst := by
        intro hmem
        obtain ⟨⟨q, r⟩, hqr, hq⟩ := List.mem_map.1 hmem
        obtain ⟨l, hl, hle⟩ := t.below q r hqr
        have hlt := h.below l hl
        rw [show q = c.crypto.nextSequence from hq] at hle
        omega
      refine ⟨c.crypto.nextSequence, sent.2, ?_, t.quiet _ hfresh, ?_⟩
      · rw [houtgoing, if_pos helicits]
        exact List.mem_append_right _ (by simp [Delivery.tracked])
      · rw [hrecord, ← hkey]
        refine List.mem_map_of_mem (List.mem_filter.2 ⟨?_, hrel⟩)
        rw [hfilled.carrying.staged_eq]
        exact List.mem_map_of_mem hx
  have hunreliable : ∀ m ∈ sent.1.pending.items, ∀ kind, sent.1.kind m.channel = some kind →
      kind.isReliable = false → m.inFlight = false := by
    intro m hm kind hkind hrel
    cases hf : m.inFlight with
    | false => rfl
    | true =>
      have hset : sent.1.set = c.channels.set := (hfills.trans hsettles.toShrinks).set_eq
      rw [Channels.kind, hset] at hkind
      rcases hfilled.marks hkeyed hm hf with hold | ⟨x, hx, hkey, hxrel⟩
      · have hno := h.unreliable m (hrequeued.inFlight m hold hf) kind hkind hrel
        rw [hf] at hno
        cases hno
      · obtain ⟨-, kind', hkind', hrel'⟩ := hfilled.carrying.queued x hx
        have hchannel : x.1.channel = m.channel := congrArg MessageKey.channel hkey
        rw [hchannel, hrequeued.set_eq, hkind] at hkind'
        obtain rfl := Option.some.inj hkind'
        rw [hxrel, hrel] at hrel'
        cases hrel'
  refine ⟨⟨fun m hm _ _ _ hf => ?_, unreliable_settles hledger hunreliable⟩, ?_, ?_, ⟨_, _, t'⟩, ?_⟩
  · exact ledger_rides (c := begun) hkeyed' t' hopen hm hf
  · exact ((hfills.trans hsettles.toShrinks).trans hledger.toShrinks).intact h.intact
  · exact hkeyed'.shrinks hledger.toShrinks
  · intro l hl
    have hl₁ : (c.delivery.onSent now c.crypto.nextSequence outgoing).1.largestSent = some l := hl
    rw [Delivery.onSent_largestSent] at hl₁
    have hl' := Option.some.inj hl₁
    show l < c.crypto.nextSequence + 1
    cases hold : c.delivery.largestSent with
    | none => rw [hold] at hl'; dsimp only [Option.elim] at hl'; omega
    | some l₀ =>
      have := h.below l₀ hold
      rw [hold] at hl'
      dsimp only [Option.elim] at hl'
      omega

theorem Tended.builds {c : Connection R} (h : c.Tended) {now : Timestamp} {r : Connection R × Option (List UInt8)}
    (hbuilds : c.Builds now r) : r.1.Tended := by
  cases hbuilds with
  | @aborted filled staged w hfilled =>
    -- nothing was staged, so nothing was marked
    have hrequeued : c.channels.Settles (c.prepared now).channels := c.requeued_settles
    have hsettles : c.channels.Settles filled := by
      refine hrequeued.trans ⟨hfilled.shrinks, fun m hm _ => ?_⟩
      rcases hfilled.carrying.marked m hm with hold | ⟨x, hx, -⟩
      · exact hold
      · cases hx
    exact ⟨⟨fun m hm _ _ _ hf => h.rides (hsettles.inFlight m hm hf) hf, unreliable_settles hsettles h.unreliable⟩,
      hsettles.intact h.intact, h.keyed.shrinks hsettles.toShrinks, h.tracked, h.below⟩
  | built hfilled =>
    exact (h.committed hfilled).passive (transmitted_passive ..)

/-- A send takes an id no pending message of its channel has. -/
def NoReuse [OwnOps R] (c : Connection R) : Call R → Prop
  | .send channel _ => ∀ m ∈ c.channels.pending.items, m.key ≠ ⟨channel, c.channels.nextIds channel⟩
  | _ => True

/-- **One call** keeps the account, while no send reuses a pending id. -/
theorem Tended.step [OwnOps R] {c c' : Connection R} {call : Call R} (h : c.Tended) (hok : c.NoReuse call)
    (hdoes : c.Does call c') : c'.Tended := by
  cases hdoes with
  | passive hp => exact h.passive hp
  | sent channel payload =>
    refine ⟨⟨fun m hm _ _ _ hf => ?_, fun m hm kind hkind hrel => ?_⟩, h.intact.send channel payload,
      h.keyed.send h.intact hok, h.tracked, h.below⟩
    · exact h.rides (Channels.send_inFlight h.intact hm hf) hf
    · cases hf : m.inFlight with
      | false => rfl
      | true =>
        have hset : (c.channels.send channel payload).1.set = c.channels.set := Channels.send_set ..
        rw [Channels.kind, hset] at hkind
        have hno := h.unreliable m (Channels.send_inFlight h.intact hm hf) kind hkind hrel
        rw [hf] at hno
        cases hno
  | acked ack ackDelay bits _ hp =>
    refine Tended.passive ?_ hp
    exact h.ledger (fun sends ns t => t.onAck _ ack ackDelay bits) (Delivery.onAck_largestSent ..)
  | timedOut hp =>
    refine Tended.passive ?_ hp
    exact h.ledger (fun sends ns t => t.onTimeout _) (Delivery.onTimeout_largestSent ..)
  | polled now out =>
    have hassessed : (c.assessed now).Tended := ⟨⟨h.reliable, h.unreliable⟩, h.intact, h.keyed, h.tracked, h.below⟩
    rcases pollTransmit_cases h.intact now out with ⟨-, heq⟩ | ⟨-, hbuilds⟩
    · rw [heq]
      exact hassessed
    · exact hassessed.builds hbuilds

/-- **No reliable message is stalled**: in every run in which no send takes an
id still pending on its channel, a message marked in flight is in the record
of a packet the ledger holds in flight, and none of an unreliable channel is
marked. -/
theorem no_stalled_message [Role R] [LawfulRole R] [OwnOps R] {c : Connection R}
    (h : Lts.Reach (sys R) NoReuse c) : c.Accounted := by
  refine (Lts.Reach.invariant (P := Tended) ?_ ?_ h).toAccounted
  · rintro _ ⟨now, id, addr, tx, rx, set, transport, owed, role, -, rfl⟩
    refine ⟨⟨by simp [new, Channels.new], by simp [new, Channels.new]⟩, Channels.new_intact set, ?_,
      ⟨[], [], Ack.Ledger.start_tracking now transport.maxAckDelay⟩, fun l hl => by cases hl⟩
    simp [Channels.Keyed, new, Channels.new]
  · rintro c call _ - hc hok rfl
    exact hc.step hok (after_does c call)

instance [OwnOps R] (c : Connection R) : DecidablePred c.NoReuse
  | .send channel _ =>
    inferInstanceAs (Decidable (∀ m ∈ c.channels.pending.items, m.key ≠ ⟨channel, c.channels.nextIds channel⟩))
  | .pollTransmit .. | .handleDatagram .. | .handleTimeout _ | .close _ | .pollEvent | .own _ =>
    inferInstanceAs (Decidable True)

/-- A client's connection with that channel. -/
def joining : Connection Client := .connect .zero 0 (.v4 0 0) .clear .clear orderedOnly .default

theorem joining_reach {ok : Connection Client → Call Client → Prop} : Lts.Reach (sys Client) ok joining :=
  .start ⟨.zero, 0, .v4 0 0, .clear, .clear, orderedOnly, .default, .none, ⟨.none⟩, ⟨rfl, rfl⟩, rfl⟩

/-- Two messages in flight, and a third that waits. -/
theorem no_stalled_message_sent : ∃ c : Connection Client, Lts.Reach (sys Client) NoReuse c ∧
    c.channels.pending.items.map Pending.inFlight = [true, true, false] ∧ c.Accounted := by
  have hjoining : Lts.Reach (sys Client) NoReuse joining := joining_reach
  obtain ⟨c, hreach, hmarks⟩ := hjoining.evaluates (fun _ _ _ hs => (Option.some.inj hs).symm)
    [.send 0 [1], .send 0 [2, 3], .pollTransmit .zero blank, .send 0 [4]]
    (fun c => c.channels.pending.items.map Pending.inFlight = [true, true, false]) (by decide +kernel)
  exact ⟨c, hreach, hmarks, no_stalled_message hreach⟩

end Connection
end HexNet
