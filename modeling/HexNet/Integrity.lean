/-
Nothing reaches an application that the other one did not send.

The hold list keeps messages by reference, and the references by wrapping ids,
so what comes off it is not told by its key: of every entry the arena has,
under its reference, something that was said (`Channels.Keeps`). It needs
no bound on ids, on reordering, or on how long a packet was under way.
-/
import HexNet.ChannelRuns
import HexNet.Duplex
import HexNet.Lib.Lists

namespace HexNet

open Connection (OwnOps LawfulRole Marked Call)

/-! ## A packet on the hold list -/

namespace Channels

variable {S : Nat → List UInt8 → Prop}

/-- A packet of messages that were said leaves only such held, and lets only
such out. -/
theorem Keeps.receiveAll {ms : List Message} {c : Channels} (h : c.Keeps S)
    (hms : ∀ m ∈ ms, S m.channel m.payload) :
    (Channels.receiveAll ms c).1.Keeps S ∧ ∀ m ∈ (Channels.receiveAll ms c).2.1, S m.channel m.payload := by
  refine (receiveAll_rule ms (P := fun _ c out => c.Keeps S ∧ ∀ m ∈ out, S m.channel m.payload)
    (fun {got m c out v} hm h hreceive => ?_) [] ⟨h, by simp⟩).elim fun _ hkept => hkept.1
  obtain ⟨kind, -, hreceive⟩ := Option.bind_eq_some_iff.1 hreceive
  obtain ⟨id, -, rfl⟩ := Option.map_eq_some_iff.1 hreceive
  obtain ⟨hkeeps, hout⟩ := h.1.dispatch (hms m hm) kind id
  refine ⟨hkeeps, fun x hx => ?_⟩
  rcases List.mem_append.1 hx with hx | hx
  · exact h.2 x hx
  · exact hout x hx

end Channels

/-! ## The send queue -/

namespace Connection

variable {R : Type} [Role R] [LawfulRole R] [OwnOps R]

/-- A call accepts a message, or leaves a queue that only shrank. -/
theorem after_queue {c : Connection R} (h : c.channels.Intact) (call : Call R) :
    (c.takes call = none ∧ c.channels.Shrinks (c.after call).channels) ∨
      ∃ channel payload, call = .send channel payload ∧
        c.channels.send channel payload = ((c.after call).channels, .ok ()) ∧
        c.takes call = some ⟨channel, c.channels.nextIds channel, payload⟩ := by
  have hside : ∀ {c₁ c₂ : Connection R}, c₁.Passive c₂ → c₁.channels.Shrinks c₂.channels := fun hp => by
    obtain ⟨hset, hnext, hpending, harena⟩ := hp.sending
    exact .of_queue (by rw [hpending]) harena hset hnext
  have hrest : (∀ channel payload, call ≠ .send channel payload) → c.channels.Shrinks (c.after call).channels := by
    intro hne
    have hdoes := after_does c call
    generalize c.after call = c' at hdoes
    cases hdoes with
    | passive hp => exact hside hp
    | sent channel payload => exact absurd rfl (hne channel payload)
    | acked ack ackDelay bits _ hp => exact (ledger_settles c _).1.toShrinks.trans (hside hp)
    | timedOut hp => exact (ledger_settles c _).1.toShrinks.trans (hside hp)
    | polled now out => exact pollTransmit_shrinks h now out
  cases call with
  | send channel payload =>
    cases hsend : c.channels.send channel payload with
    | mk c' r =>
      cases r with
      | error e =>
        refine .inl ⟨by simp [takes, send, hsend], ?_⟩
        simp only [after, send, hsend, Channels.send_error h hsend]
        exact .refl _
      | ok u => exact .inr ⟨channel, payload, rfl, by simp [after, send, hsend], by simp [takes, send, hsend]⟩
  | _ => exact .inl ⟨rfl, hrest (by simp)⟩

end Connection

namespace Channels

/-- What is left of a queue has the bytes it had. -/
theorem Shrinks.contents_eq {c c' : Channels} (hs : c.Shrinks c') (h : c.Intact) {m : Pending}
    (hm : m ∈ c'.pending.items) :
    c'.contents (m.key, m.bytes) = c.contents (m.key, m.bytes) ∧
      ∃ m' ∈ c.pending.items, m'.key = m.key ∧ m'.bytes = m.bytes :=
  ⟨(hs.stocked _ h).contents_eq hm, mem_queue.1 (hs.sublist.mem (mem_queue.2 ⟨m, hm, rfl, rfl⟩))⟩

end Channels

/-! ## End to end -/

/-- The application said this on this channel. -/
def Party.Said {R : Type} (p : Party R) (channel : Nat) (payload : List UInt8) : Prop :=
  ∃ m ∈ p.sent, m.channel = channel ∧ m.payload = payload

namespace Duplex

variable {R R' : Type} [Role R] [LawfulRole R] [OwnOps R] [Role R'] [LawfulRole R'] [OwnOps R'] [FrameReader R']

/-- Everything on its way from the left to the right was said on the left. -/
structure Truthful (s : Duplex R R') (set : ChannelSet) : Prop where
  queued : ∀ m ∈ s.left.conn.channels.pending.items,
    s.left.Said m.channel (s.left.conn.channels.contents (m.key, m.bytes))
  sealed : ∀ p ∈ s.left.sealed, ∃ header fs ms, p.Written R' s.left.conn.crypto.tx set header fs ms ∧
    ∀ m ∈ ms, s.left.Said m.channel m.payload
  held : s.right.conn.channels.Keeps s.left.Said
  delivered : ∀ m ∈ s.right.delivered, s.left.Said m.channel m.payload

variable {up down : Aead} {set : ChannelSet} {s s' : Duplex R R'}

omit [LawfulRole R'] in
theorem Truthful.left [Peer R R'] (h : s.Truthful set) (hjoined : s.Joined up set) {call : Call R}
    (hs : s.next (.left call) = some s') : s'.Truthful set := by
  obtain ⟨rfl, -⟩ := next_left hs
  have hintact := Connection.reach_intact hjoined.sender
  have hmore : ∀ channel payload, s.left.Said channel payload → (s.left.after call).Said channel payload := by
    rintro channel payload ⟨m, hm, hsaid⟩
    exact ⟨m, List.mem_append_left _ hm, hsaid⟩
  have htx : (s.left.conn.after call).crypto.tx = s.left.conn.crypto.tx :=
    (Connection.after_numbered hintact call).1
  refine ⟨fun m hm => ?_, fun p hp => ?_, h.held.mono hmore, fun m hm => hmore _ _ (h.delivered m hm)⟩
  · rcases Connection.after_queue hintact call with ⟨-, hshrinks⟩ | ⟨channel, payload, rfl, hsend, htakes⟩
    · obtain ⟨hcontents, m', hm', hkey, hbytes⟩ := hshrinks.contents_eq hintact hm
      have hsaid := h.queued m' hm'
      rw [hkey, hbytes, ← hcontents] at hsaid
      rw [show m.channel = m'.channel from (congrArg MessageKey.channel hkey).symm]
      exact hmore _ _ hsaid
    · obtain ⟨r, hitems, -, hnew, hold⟩ := hintact.send_ok hsend
      have hm : m ∈ (s.left.conn.after (.send channel payload)).channels.pending.items := hm
      rw [hitems] at hm
      rcases List.mem_append.1 hm with hm | hm
      · have hsaid := hmore _ _ (h.queued m hm)
        rwa [← hold m hm] at hsaid
      · rw [List.mem_singleton.1 hm]
        refine ⟨⟨channel, s.left.conn.channels.nextIds channel, payload⟩, ?_, rfl, (hnew _).symm⟩
        show _ ∈ s.left.sent ++ (s.left.conn.takes (.send channel payload)).toList
        rw [htakes]
        simp
  · rcases List.mem_append.1 hp with hp | hp
    · obtain ⟨header, fs, ms, hwritten, hsaid⟩ := h.sealed p hp
      exact ⟨header, fs, ms, by rw [show (s.left.after call).conn.crypto.tx = _ from htx]; exact hwritten,
        fun m hm => hmore _ _ (hsaid m hm)⟩
    · obtain ⟨datagram, hemitted, rfl⟩ := Option.map_eq_some_iff.1 (Option.mem_toList.1 hp)
      obtain ⟨now, out, ms, rfl, hwritten, hqueued, -⟩ := Connection.emitted_written R' hjoined.sender hemitted
        (s.left.conn.carries call) s.left.conn.crypto.acked.newest
      rw [hjoined.senderSet, ← htx] at hwritten
      refine ⟨_, _, ms, hwritten, fun m hm => ?_⟩
      obtain ⟨q, hq, hkey, hpayload⟩ := hqueued m hm
      have hsaid := hmore _ _ (h.queued q hq)
      rwa [hpayload, show q.channel = m.channel from congrArg MessageKey.channel hkey] at hsaid

omit [LawfulRole R] in
theorem Truthful.right (h : s.Truthful set) (hjoined : s.Joined up set) (hown : up.OpensOwn) {call : Call R'}
    (hgenuine : s.Genuine (.right call)) (hs : s.next (.right call) = some s') : s'.Truthful set := by
  obtain ⟨rfl, -⟩ := next_right hs
  suffices hright : (s.right.conn.after call).channels.Keeps s.left.Said ∧
      ∀ m ∈ s.right.conn.hands call, s.left.Said m.channel m.payload by
    refine ⟨h.queued, h.sealed, hright.1, fun m hm => ?_⟩
    rcases List.mem_append.1 hm with hm | hm
    · exact h.delivered m hm
    · exact hright.2 m hm
  cases hopen : s.right.conn.opens call with
  | none =>
    obtain ⟨hside, hnone, -⟩ := Connection.after_unopened (Connection.reach_intact hjoined.receiver) hopen
    exact ⟨h.held.recvSide hside, by simp [hnone]⟩
  | some o =>
    obtain ⟨crypto, opened⟩ := o
    obtain ⟨p, hp, -, -, now, sender, hcall, -⟩ := hjoined.opens hown hgenuine hopen
    obtain ⟨header, fs, ms, hwritten, hsaid⟩ := h.sealed p hp
    obtain ⟨-, c, hside, hchannels, hout⟩ := hjoined.receives hown hp hcall hopen hwritten
    rw [hchannels, hout]
    exact (h.held.recvSide hside).receiveAll hsaid

theorem reach_truthful [Marked R'] [Peer R R'] (hown : up.OpensOwn)
    (h : Lts.Reach (sys R R' up down set) Genuine s) : s.Truthful set := by
  refine Lts.Reach.invariant (P := fun s => s.Truthful set) ?_ ?_ h
  · rintro _ ⟨id, now, addr, transport, owed, role, now', addr', transport', owed', role', hfresh, hfresh', rfl⟩
    exact ⟨fun m hm => (by cases hm), fun p hp => (by cases hp), Channels.new_keeps _ set, fun m hm => (by cases hm)⟩
  · intro s op s' hreach hs hop hnext
    have hjoined := reach_joined hown (fun _ _ hg => hg) hreach
    cases op with
    | left call => exact hs.left hjoined hnext
    | right call => exact hs.right hjoined hown hop hnext

/-- **Nothing is delivered that was not sent.** Two connections, any calls on
either side at any times, any network: whatever it loses, repeats, delays or
reorders, and whatever ids wrap meanwhile, each message handed to either
application carries bytes the other sent, on the channel it sent them on. -/
theorem delivered_was_sent [FrameReader R] [Marked R] [Marked R'] [Peer R R'] [Peer R' R] (hup : up.OpensOwn)
    (hdown : down.OpensOwn) (h : Lts.Reach (sys R R' up down set) Genuine s) :
    (∀ m ∈ s.right.delivered, ∃ x ∈ s.left.sent, x.channel = m.channel ∧ x.payload = m.payload) ∧
      ∀ m ∈ s.left.delivered, ∃ x ∈ s.right.sent, x.channel = m.channel ∧ x.payload = m.payload :=
  ⟨(reach_truthful hup h).delivered, (reach_truthful hdown (reach_swap genuine_swap h)).delivered⟩

set_option maxRecDepth 10000 in
/-- A packet that comes twice. -/
theorem delivered_was_sent_greeting :
    ∃ s, Lts.Reach (sys Server Client .clear .clear Connection.twoKinds) Genuine s ∧
      s.right.delivered = [⟨0, 0, [1, 2]⟩] ∧
      ∀ m ∈ s.right.delivered, ∃ x ∈ s.left.sent, x.channel = m.channel ∧ x.payload = m.payload := by
  obtain ⟨s, hreach, hdelivered⟩ := Lts.Reach.evaluates (M := sys Server Client .clear .clear Connection.twoKinds)
    (fun _ _ _ hs => hs) (opening_reach Genuine)
    [.left (.send 0 [1, 2]), .left (.pollTransmit .zero Connection.blank),
      .right (.handleDatagram .zero (.v4 0 0) greeting), .right (.handleDatagram .zero (.v4 0 0) greeting)]
    (fun s => s.right.delivered = [⟨0, 0, [1, 2]⟩]) (by decide +kernel)
  exact ⟨s, hreach, hdelivered, (delivered_was_sent Aead.clear_opensOwn Aead.clear_opensOwn hreach).1⟩

end Duplex

end HexNet
