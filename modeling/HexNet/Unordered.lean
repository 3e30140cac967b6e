/-
Reliable-unordered delivery: what a receiver with a 64-bit duplicate set
hands on.

The set is keyed by id and forgets ids 64 below the newest, while the
sender is limited to 64 pending entries, not to a span of 64 ids. A message
whose packets are lost again and again falls off the set while later ones
are delivered, and its arrival is then taken for a duplicate: acknowledged,
released, and never delivered (`late_message_refused`). While no send leaves
an undelivered message 64 ids behind, every released message is delivered
exactly once (`unordered_exactly_once`).
-/
import HexNet.LinkFacts
import HexNet.Lib.Window

namespace HexNet

/-- The channel's message with this id is among `l`. -/
def HasId (channel : Nat) (l : List Message) (i : Nat) : Prop := ∃ m ∈ l, m.channel = channel ∧ m.id.toNat = i

theorem hasId_append {channel : Nat} {l l' : List Message} {i : Nat} :
    HasId channel (l ++ l') i ↔ HasId channel l i ∨ HasId channel l' i := by
  simp only [HasId, List.mem_append, or_and_right, exists_or]

/-! ## The duplicate set -/

/-- The duplicate set answers for the ids in `S`. -/
structure ReceiverState.Filters (s : ReceiverState) (S : Nat → Prop) : Prop where
  fresh : s.seenStarted = false → s.seenNewest = .first ∧ ∀ i, ¬ S i
  tracks : s.seenStarted = true → Window.Tracks s.seenMask s.seenNewest.toNat S

namespace ReceiverState

theorem Filters.congr {s : ReceiverState} {S S' : Nat → Prop} (h : s.Filters S) (hS : ∀ i, S' i ↔ S i) : s.Filters S' :=
  ⟨fun hs => ⟨(h.fresh hs).1, fun i hi => (h.fresh hs).2 i ((hS i).1 hi)⟩, fun hs => (h.tracks hs).congr hS⟩

/-- **An id near the newest** is accepted just when it is new and no further
behind than the mask reaches, and is seen from then on. -/
theorem Filters.judge {s : ReceiverState} {S : Nat → Prop} (h : s.Filters S) (id : MessageId)
    (hahead : id.toNat < s.seenNewest.toNat + 2 ^ 31) (hbehind : s.seenNewest.toNat ≤ id.toNat + 2 ^ 31) :
    (s.acceptUnordered id).1.Filters (fun i => ((s.acceptUnordered id).2 = true ∧ i = id.toNat) ∨ S i) ∧
      ((s.acceptUnordered id).2 = true ↔
        ¬ S id.toNat ∧ (s.seenStarted = true → s.seenNewest.toNat < id.toNat + 64)) := by
  cases hstarted : s.seenStarted with
  | false =>
    have hrun : s.acceptUnordered id = ({ s with seenStarted := true, seenNewest := id, seenMask := 1 }, true) := by
      simp [acceptUnordered, hstarted]
    obtain ⟨-, hnone⟩ := h.fresh hstarted
    rw [hrun]
    refine ⟨⟨by simp, fun _ => ?_⟩, by simp [hnone]⟩
    exact (Window.tracks_one 64 id.toNat).congr fun i => by simp [hnone]
  | true =>
    have htracks := h.tracks hstarted
    have hdist := MessageId.distanceFrom_eq hahead hbehind
    have hsame : s.Filters fun i => (false = true ∧ i = id.toNat) ∨ S i := h.congr fun i => by simp
    rw [acceptUnordered]
    simp only [hstarted, Bool.not_true, Bool.false_eq_true, if_false]
    by_cases hnew : s.seenNewest.toNat < id.toNat
    · rw [if_pos (by omega)]
      have hadv := htracks.advance (d := id.toNat - s.seenNewest.toNat) (by omega)
      rw [Nat.add_sub_cancel' hnew.le] at hadv
      have hshift : (id.distanceFrom s.seenNewest).toNat = id.toNat - s.seenNewest.toNat := by omega
      have hnot : ¬ S id.toNat := fun hi => absurd (htracks.le _ hi) (by omega)
      have hreach : s.seenNewest.toNat < id.toNat + 64 := by omega
      refine ⟨⟨by simp, fun _ => ?_⟩, by simp [hnot, hreach]⟩
      rw [hshift]
      exact hadv.congr fun i => by simp
    · rw [if_neg (by omega)]
      have hoff : (-id.distanceFrom s.seenNewest).toNat = s.seenNewest.toNat - id.toNat := by omega
      rw [hoff]
      by_cases hfar : 64 ≤ s.seenNewest.toNat - id.toNat
      · rw [if_pos hfar]
        exact ⟨hsame, by simpa using fun _ => by omega⟩
      · rw [if_neg hfar]
        have hbit := htracks.bit id.toNat (s.seenNewest.toNat - id.toNat) (by omega) (by omega)
        by_cases hseen : s.seenMask.getLsbD (s.seenNewest.toNat - id.toNat) = true
        · rw [if_pos hseen]
          exact ⟨hsame, by simp [hbit.1 hseen]⟩
        · rw [if_neg hseen]
          have hi : ¬ S id.toNat := fun hi => hseen (hbit.2 hi)
          have hreach : s.seenNewest.toNat < id.toNat + 64 := by omega
          refine ⟨⟨by simp, fun _ => ?_⟩, by simp [hi, hreach]⟩
          exact (htracks.insert (j := id.toNat) (by omega)).congr fun i => by simp

/-- An id no further behind than the mask reaches, or seen already, is
accepted just when it is new, and is seen from then on. -/
theorem Filters.accept {s : ReceiverState} {S : Nat → Prop} {id : MessageId} (h : s.Filters S)
    (hahead : id.toNat < s.seenNewest.toNat + 2 ^ 31) (hbehind : s.seenNewest.toNat ≤ id.toNat + 2 ^ 31)
    (hwindow : s.seenNewest.toNat < id.toNat + 64 ∨ S id.toNat) :
    (s.acceptUnordered id).1.Filters (fun i => i = id.toNat ∨ S i) ∧
      ((s.acceptUnordered id).2 = true ↔ ¬ S id.toNat) := by
  obtain ⟨hfilters, hjudge⟩ := h.judge id hahead hbehind
  have haccept : (s.acceptUnordered id).2 = true ↔ ¬ S id.toNat := by
    rw [hjudge]
    exact ⟨fun hj => hj.1, fun hnot => ⟨hnot, fun _ => hwindow.resolve_right hnot⟩⟩
  refine ⟨hfilters.congr fun i => ?_, haccept⟩
  by_cases hs : S id.toNat
  · have hno : ¬ (s.acceptUnordered id).2 = true := fun ha => haccept.1 ha hs
    exact ⟨fun hor => .inr (hor.elim (fun he => he ▸ hs) fun hi => hi),
      fun hor => .inr (hor.resolve_left fun ha => hno ha.1)⟩
  · simp only [haccept.2 hs, true_and]

end ReceiverState

/-! ## What the receiver has delivered -/

/-- What the receiver has done with the unordered channels: it delivered
messages that were sent, each once, and its duplicate sets answer for them. -/
structure UnorderedSoFar (set : ChannelSet) (sent : List Message) (c : Channels) (delivered : List Message) : Prop where
  set_eq : c.set = set
  genuine : ∀ m ∈ delivered, set.kind m.channel = some .reliableUnordered → m ∈ sent
  once : ∀ channel, set.kind channel = some .reliableUnordered → (onChannel channel delivered).Nodup
  filters : ∀ channel, set.kind channel = some .reliableUnordered →
    (c.receivers channel).Filters (HasId channel delivered)

/-- No undelivered message is 64 ids or more behind its channel's newest. -/
def Abreast (set : ChannelSet) (sent delivered : List Message) : Prop :=
  ∀ m ∈ sent, set.kind m.channel = some .reliableUnordered →
    m.id.toNat + 64 < (onChannel m.channel sent).length → m ∈ delivered

theorem Abreast.mono {set : ChannelSet} {sent delivered : List Message} (h : Abreast set sent delivered)
    (more : List Message) : Abreast set sent (delivered ++ more) :=
  fun m hm hk hlt => by simp [h m hm hk hlt]

open Channels

section

variable {set : ChannelSet} {sent : List Message} {c : Channels} {delivered : List Message}

theorem UnorderedSoFar.hasId_iff (h : UnorderedSoFar set sent c delivered) (hnum : Numbered set sent) {m : Message}
    (hm : m ∈ sent) (hkind : set.kind m.channel = some .reliableUnordered) :
    HasId m.channel delivered m.id.toNat ↔ m ∈ delivered := by
  refine ⟨?_, fun hmem => ⟨m, hmem, rfl, rfl⟩⟩
  rintro ⟨x, hx, hchan, hid⟩
  have hxs := h.genuine x hx (by rw [hchan]; exact hkind)
  have heq : x = m := hnum.key_inj hxs hm (by rw [Message.key, Message.key, hchan, UInt32.toNat_inj.1 hid])
  rw [← heq]
  exact hx

/-- The newest id seen lags the newest sent by 65 at most. -/
theorem UnorderedSoFar.newest (h : UnorderedSoFar set sent c delivered) (hnum : Numbered set sent)
    (habreast : Abreast set sent delivered) {m : Message} (hm : m ∈ sent)
    (hkind : set.kind m.channel = some .reliableUnordered) :
    (c.receivers m.channel).seenNewest.toNat < (onChannel m.channel sent).length ∧
      (onChannel m.channel sent).length ≤ (c.receivers m.channel).seenNewest.toNat + 65 := by
  have hfilters := h.filters m.channel hkind
  have hlt := hnum.id_lt hm
  have hold : ∀ i, i + 64 < (onChannel m.channel sent).length → HasId m.channel delivered i := by
    intro i hi
    obtain ⟨x, hx, hchan, hid⟩ := hnum.exists_id (show i < (onChannel m.channel sent).length by omega)
    refine ⟨x, habreast x hx (by rw [hchan]; exact hkind) ?_, hchan, hid⟩
    rw [hchan, hid]
    exact hi
  cases hstarted : (c.receivers m.channel).seenStarted with
  | false =>
    obtain ⟨hzero, hnone⟩ := hfilters.fresh hstarted
    have hz : (c.receivers m.channel).seenNewest.toNat = 0 := by rw [hzero]; rfl
    by_cases hlong : 64 < (onChannel m.channel sent).length
    · exact absurd (hold 0 (by omega)) (hnone 0)
    · omega
  | true =>
    have htracks := hfilters.tracks hstarted
    obtain ⟨x, hx, hchan, hid⟩ := htracks.newest_mem
    have hxlt := hnum.id_lt (h.genuine x hx (by rw [hchan]; exact hkind))
    rw [hchan, hid] at hxlt
    refine ⟨hxlt, ?_⟩
    by_cases hlong : 64 < (onChannel m.channel sent).length
    · have := htracks.le _ (hold ((onChannel m.channel sent).length - 65) (by omega))
      omega
    · omega

/-- **A sent message is accepted just when it is new.** -/
theorem UnorderedSoFar.accept (h : UnorderedSoFar set sent c delivered) (hnum : Numbered set sent)
    (habreast : Abreast set sent delivered) {m : Message} (hm : m ∈ sent)
    (hkind : set.kind m.channel = some .reliableUnordered)
    (hnear : (onChannel m.channel sent).length ≤ m.id.toNat + 2 ^ 31) :
    ((c.receivers m.channel).acceptUnordered m.id).1.Filters
        (fun i => i = m.id.toNat ∨ HasId m.channel delivered i) ∧
      (((c.receivers m.channel).acceptUnordered m.id).2 = true ↔ m ∉ delivered) := by
  obtain ⟨hlo, hhi⟩ := h.newest hnum habreast hm hkind
  have hlt := hnum.id_lt hm
  have hiff := h.hasId_iff hnum hm hkind
  rw [← hiff]
  refine (h.filters m.channel hkind).accept (by omega) (by omega) ?_
  by_cases hfar : m.id.toNat + 64 < (onChannel m.channel sent).length
  · exact .inr (hiff.2 (habreast m hm hkind hfar))
  · exact .inl (by omega)

theorem UnorderedSoFar.dispatch (h : UnorderedSoFar set sent c delivered) (hnum : Numbered set sent)
    (habreast : Abreast set sent delivered) {m : Message} (hm : m ∈ sent)
    (hkind : set.kind m.channel = some .reliableUnordered)
    (hnear : (onChannel m.channel sent).length ≤ m.id.toNat + 2 ^ 31) :
    UnorderedSoFar set sent (c.dispatch m.channel .reliableUnordered m.id m.payload).1
        (delivered ++ (c.dispatch m.channel .reliableUnordered m.id m.payload).2) ∧
      m ∈ delivered ++ (c.dispatch m.channel .reliableUnordered m.id m.payload).2 := by
  obtain ⟨hfilters, haccept⟩ := h.accept hnum habreast hm hkind hnear
  have hset := dispatch_set c m.channel .reliableUnordered m.id m.payload
  rw [dispatch_unordered] at hset ⊢
  dsimp only at hset ⊢
  have hother : ∀ ch, ch ≠ m.channel → ∀ state, (c.setReceiver m.channel state).receivers ch = c.receivers ch :=
    fun ch hch state => setReceiver_other c hch state
  have hself : ∀ state, (c.setReceiver m.channel state).receivers m.channel = state :=
    fun state => Function.update_self ..
  by_cases hmem : m ∈ delivered
  · rw [if_neg fun hacc => haccept.1 hacc hmem, List.append_nil]
    refine ⟨⟨hset.trans h.set_eq, h.genuine, h.once, fun ch hch => ?_⟩, hmem⟩
    by_cases hc : ch = m.channel
    · subst hc
      rw [hself]
      refine hfilters.congr fun i => ⟨.inr, ?_⟩
      rintro (rfl | hi)
      · exact ⟨m, hmem, rfl, rfl⟩
      · exact hi
    · rw [hother ch hc]
      exact h.filters ch hch
  · rw [if_pos (haccept.2 hmem)]
    refine ⟨⟨hset.trans h.set_eq, fun x hx hxk => ?_, fun ch hch => ?_, fun ch hch => ?_⟩, by simp⟩
    · rcases List.mem_append.1 hx with hx | hx
      · exact h.genuine x hx hxk
      · rw [List.mem_singleton.1 hx]; exact hm
    · by_cases hc : m.channel = ch
      · rw [onChannel_snoc_of_eq hc]
        refine List.nodup_append.2 ⟨h.once ch hch, by simp, fun x hx y hy hxy => ?_⟩
        rw [List.mem_singleton.1 hy] at hxy
        exact hmem (hxy ▸ (mem_onChannel.1 hx).1)
      · rw [onChannel_snoc_of_ne hc]
        exact h.once ch hch
    · by_cases hc : ch = m.channel
      · subst hc
        rw [hself]
        refine hfilters.congr fun i => hasId_append.trans ?_
        rw [or_comm]
        simp [HasId, eq_comm]
      · rw [hother ch hc]
        refine (h.filters ch hch).congr fun i => hasId_append.trans ?_
        simp [HasId, Ne.symm hc]

theorem UnorderedSoFar.other (h : UnorderedSoFar set sent c delivered) {channel : Nat} {kind : ChannelKind}
    (hkind : set.kind channel = some kind) (hne : kind ≠ .reliableUnordered) (id : MessageId) (payload : List UInt8) :
    UnorderedSoFar set sent (c.dispatch channel kind id payload).1
      (delivered ++ (c.dispatch channel kind id payload).2) := by
  obtain ⟨hrecv, hout⟩ := dispatch_own c channel kind id payload
  have hne' : ∀ ch, set.kind ch = some .reliableUnordered → ch ≠ channel := by
    rintro ch hch rfl
    exact hne (Option.some.inj (hkind.symm.trans hch))
  refine ⟨(dispatch_set ..).trans h.set_eq, fun x hx hxk => ?_, fun ch hch => ?_, fun ch hch => ?_⟩
  · rcases List.mem_append.1 hx with hx | hx
    · exact h.genuine x hx hxk
    · exact absurd (hout x hx) (hne' x.channel hxk)
  · rw [onChannel_other hout (hne' ch hch)]
    exact h.once ch hch
  · rw [hrecv ch (hne' ch hch)]
    refine (h.filters ch hch).congr fun i => hasId_append.trans (or_iff_left ?_)
    rintro ⟨x, hx, hchan, -⟩
    exact hne' ch hch (hchan.symm.trans (hout x hx))

/-- **Any message of a packet arriving**, its id resolved from the wire. -/
theorem UnorderedSoFar.receive (h : UnorderedSoFar set sent c delivered) (hnum : Numbered set sent)
    (habreast : Abreast set sent delivered) {m : Message} (hm : m ∈ sent)
    (hnear : set.kind m.channel = some .reliableUnordered → (onChannel m.channel sent).length ≤ m.id.toNat + 32767)
    {v : Channels × List Message} (hrecv : c.receive m = some v) :
    UnorderedSoFar set sent v.1 (delivered ++ v.2) ∧
      (set.kind m.channel = some .reliableUnordered → m ∈ delivered ++ v.2) := by
  simp only [Channels.receive, Option.bind_eq_some_iff, Option.map_eq_some_iff] at hrecv
  obtain ⟨kind, hkind, id, hid, rfl⟩ := hrecv
  have hkind' : set.kind m.channel = some kind := by rw [← h.set_eq]; exact hkind
  by_cases hun : kind = .reliableUnordered
  · subst hun
    obtain ⟨hlo, hhi⟩ := h.newest hnum habreast hm hkind'
    have hlt := hnum.id_lt hm
    have hnear' := hnear hkind'
    have hres : c.resolveId m.channel .reliableUnordered m.id.toWire = some m.id := by
      show MessageId.fromWire (c.receivers m.channel).seenNewest m.id.toWire = some m.id
      exact MessageId.fromWire_toWire (by omega) (by omega)
    rw [hres] at hid
    obtain rfl := Option.some.inj hid
    obtain ⟨h₁, h₂⟩ := h.dispatch hnum habreast hm hkind' (by omega)
    exact ⟨h₁, fun _ => h₂⟩
  · refine ⟨h.other hkind' hun id m.payload, fun hcon => ?_⟩
    exact absurd (Option.some.inj (hkind'.symm.trans hcon)) hun

/-- **A whole packet arriving.** If none of it is an error, every unordered
message in it is delivered by then. -/
theorem UnorderedSoFar.receiveAll (hnum : Numbered set sent) {ms : List Message} (hms : ∀ m ∈ ms, m ∈ sent)
    (hnear : ∀ m ∈ ms, set.kind m.channel = some .reliableUnordered →
      (onChannel m.channel sent).length ≤ m.id.toNat + 32767)
    (h : UnorderedSoFar set sent c delivered) (habreast : Abreast set sent delivered) :
    UnorderedSoFar set sent (receiveAll ms c).1 (delivered ++ (receiveAll ms c).2.1) ∧
      ((receiveAll ms c).2.2 = true → ∀ m ∈ ms, set.kind m.channel = some .reliableUnordered →
        m ∈ delivered ++ (receiveAll ms c).2.1) := by
  refine (receiveAll_rule ms (P := fun got c out => UnorderedSoFar set sent c out ∧
      Abreast set sent out ∧ ∀ m ∈ got, set.kind m.channel = some .reliableUnordered → m ∈ out)
    (fun {got m c out v} hm hrun hv => ?_) delivered ⟨h, habreast, by simp⟩).elim fun got ⟨hgot, hall⟩ =>
      ⟨hgot.1, fun hok m hm => hgot.2.2 m (hall hok ▸ hm)⟩
  obtain ⟨h₁, h₂⟩ := hrun.1.receive hnum hrun.2.1 (hms m hm) (hnear m hm) hv
  refine ⟨h₁, hrun.2.1.mono v.2, fun x hx hxk => ?_⟩
  rcases List.mem_append.1 hx with hx | hx
  · exact List.mem_append_left _ (hrun.2.2 x hx hxk)
  · obtain rfl := List.mem_singleton.1 hx
    exact h₂ hxk

end

/-! ## The link -/

namespace Link

/-- Every released unordered message was delivered, once and whole, and none
yet to be delivered would be refused. -/
def ExactlyOnce (s : Link) : Prop :=
  (∀ m ∈ s.released, s.receiver.kind m.channel = some .reliableUnordered →
      s.delivered.filter (fun x => x.key == m.key) = [m]) ∧
    ∀ m ∈ s.sent, s.receiver.kind m.channel = some .reliableUnordered → m ∉ s.delivered →
      ((s.receiver.receivers m.channel).acceptUnordered m.id).2 = true

/-- A send leaves no undelivered message of its channel 64 ids or more behind,
and no counter wraps; a packet is read in time. -/
def UnorderedRoom (s : Link) : LinkOp → Prop
  | .send channel _ =>
    (onChannel channel s.sent).length + 1 < 2 ^ 32 ∧
      (s.receiver.kind channel = some .reliableUnordered → ∀ m ∈ onChannel channel s.sent,
        m.id.toNat + 64 ≤ (onChannel channel s.sent).length → m ∈ s.delivered)
  | .read i => s.Timely .reliableUnordered i
  | _ => True

instance (s : Link) : (op : LinkOp) → Decidable (s.UnorderedRoom op)
  | .send _ _ => inferInstanceAs (Decidable (_ ∧ (_ → ∀ m ∈ _, _ → _)))
  | .read i => inferInstanceAs (Decidable (s.Timely _ i))
  | .build _ _ | .commit _ | .ack _ | .lose _ | .requeue _ => inferInstanceAs (Decidable True)

theorem UnorderedRoom.noWrap {s : Link} {op : LinkOp} (h : s.UnorderedRoom op) : s.NoWrap op := by
  cases op with
  | send channel payload => exact h.1
  | build | commit | read | ack | lose | requeue => trivial

/-- What the unordered channels' guard keeps. -/
structure UnorderedSound (set : ChannelSet) (s : Link) : Prop where
  sound : s.Sound set
  soFar : UnorderedSoFar set s.sent s.receiver s.delivered
  abreast : Abreast set s.sent s.delivered
  told : s.Told set .reliableUnordered fun s key => ∃ m ∈ s.delivered, m.key = key

theorem start_unorderedSound (set : ChannelSet) : (start set).UnorderedSound set where
  sound := start_sound set
  soFar := ⟨rfl, by simp [start], by simp [start, onChannel], fun _ _ =>
    ⟨fun _ => ⟨rfl, by simp [start, HasId]⟩, by simp [start, Channels.new, ReceiverState.new]⟩⟩
  abreast := by simp [start, Abreast]
  told := ⟨by simp [start], by simp [start]⟩

/-- A message sent within the guard leaves every channel abreast. -/
theorem UnorderedSound.sent {set : ChannelSet} {s : Link} (h : s.UnorderedSound set) {m : Message}
    (hid : m.id.toNat = (onChannel m.channel s.sent).length) (hok : s.UnorderedRoom (.send m.channel m.payload)) :
    Abreast set (s.sent ++ [m]) s.delivered := by
  intro x hx hxk hlt
  by_cases hc : m.channel = x.channel
  · rw [onChannel_snoc_of_eq hc, List.length_append, List.length_singleton, ← hc] at hlt
    rcases List.mem_append.1 hx with hx | hx
    · refine hok.2 ?_ x (mem_onChannel.2 ⟨hx, hc.symm⟩) (by omega)
      rw [Channels.kind, h.sound.receiverSet, hc]
      exact hxk
    · rw [List.mem_singleton.1 hx] at hlt
      omega
  · rw [onChannel_snoc_of_ne hc] at hlt
    rcases List.mem_append.1 hx with hx | hx
    · exact h.abreast x hx hxk hlt
    · exact absurd (congrArg Message.channel (List.mem_singleton.1 hx)).symm hc

/-- **One step** within the guard. -/
theorem UnorderedSound.step {set : ChannelSet} {s s' : Link} {op : LinkOp} (h : s.UnorderedSound set)
    (hok : s.UnorderedRoom op) (hstep : s.apply op = some s') : s'.UnorderedSound set := by
  obtain ⟨hsound, heff⟩ := h.sound.step hok.noWrap hstep
  have htold := h.told.step heff
  cases heff with
  | quiet hop hr hs hd hrel harr =>
    refine ⟨hsound, by rw [hs, hr, hd]; exact h.soFar, by rw [hs, hd]; exact h.abreast, ?_⟩
    exact htold (by rw [hd]; exact fun _ hg => hg) fun i packet hcon => absurd hcon (hop i)
  | sent m hid hr hs hd hrel harr =>
    refine ⟨hsound, ?_, by rw [hs, hd]; exact h.sent hid hok, htold (by rw [hd]; exact fun _ hg => hg) nofun⟩
    rw [hs, hr, hd]
    exact ⟨h.soFar.set_eq, fun x hx hxk => by simp [h.soFar.genuine x hx hxk], h.soFar.once, h.soFar.filters⟩
  | read i packet r hget hrun hr hs hd hrel harr =>
    obtain ⟨g₁, g₂⟩ := UnorderedSoFar.receiveAll h.sound.numbered (h.sound.carried hget)
      (Timely.near h.sound hok hget) h.soFar h.abreast
    rw [hrun] at g₁ g₂
    refine ⟨hsound, by rw [hs, hr, hd]; exact g₁, by rw [hs, hd]; exact h.abreast.mono _, htold ?_ ?_⟩
    · rintro key ⟨m, hm, hkey⟩
      exact ⟨m, by rw [hd]; simp [hm], hkey⟩
    · intro j packet' hj hget' hok x hx hxk
      obtain rfl := LinkOp.read.inj hj
      obtain rfl := Option.some.inj (hget.symm.trans hget')
      rw [hrun] at hok
      refine ⟨x.message (payloadOf s.sent), ?_, rfl⟩
      rw [hd]
      exact g₂ hok _ (List.mem_map_of_mem hx) hxk
  | acked i packet ms hp ha hms hr hs hd hrel harr =>
    refine ⟨hsound, by rw [hs, hr, hd]; exact h.soFar, by rw [hs, hd]; exact h.abreast, ?_⟩
    exact htold (by rw [hd]; exact fun _ hg => hg) nofun

theorem UnorderedSound.exactlyOnce {set : ChannelSet} {s : Link} (h : s.UnorderedSound set) : s.ExactlyOnce := by
  have hkind : ∀ channel, s.receiver.kind channel = set.kind channel := fun channel => by
    rw [Channels.kind, h.sound.receiverSet]
  have hsame : ∀ m ∈ s.sent, set.kind m.channel = some .reliableUnordered → ∀ x ∈ s.delivered, x.key = m.key → x = m := by
    intro m hm hmk x hx hkey
    have hchan : x.channel = m.channel := congrArg MessageKey.channel hkey
    exact h.sound.numbered.key_inj (h.soFar.genuine x hx (by rw [hchan]; exact hmk)) hm hkey
  constructor
  · intro m hm hk
    rw [hkind] at hk
    obtain ⟨hsent, x, hx, hkey⟩ := h.told.released m hm hk
    have hmem : m ∈ s.delivered := hsame m hsent hk x hx hkey ▸ hx
    have hfilter : s.delivered.filter (fun x => x.key == m.key) =
        (onChannel m.channel s.delivered).filter (fun x => x.key == m.key) := by
      rw [onChannel, List.filter_filter]
      refine List.filter_congr fun x _ => ?_
      by_cases hx : x.key = m.key
      · simp [hx, show x.channel = m.channel from congrArg MessageKey.channel hx]
      · simp [hx]
    have hnodup : (s.delivered.filter (fun x => x.key == m.key)).Nodup := by
      rw [hfilter]
      exact (h.soFar.once m.channel hk).filter _
    refine List.perm_singleton.1 ((List.perm_ext_iff_of_nodup hnodup (List.nodup_singleton m)).2 fun x => ?_)
    rw [List.mem_filter, List.mem_singleton, beq_iff_eq]
    constructor
    · rintro ⟨hx, hkey⟩
      exact hsame m hsent hk x hx hkey
    · rintro rfl
      exact ⟨hmem, rfl⟩
  · intro m hm hk hnot
    rw [hkind] at hk
    have hnear : (onChannel m.channel s.sent).length ≤ m.id.toNat + 64 :=
      Nat.le_of_not_lt fun hlt => hnot (h.abreast m hm hk hlt)
    exact (h.soFar.accept h.sound.numbered h.abreast hm hk (by omega)).2.2 hnot

end Link

/-- **Unordered messages are delivered exactly once** in a run that never
sends 64 ids past an undelivered message. -/
theorem unordered_exactly_once {set : ChannelSet} {s : Link} (h : Lts.Reach (linkSys set) Link.UnorderedRoom s) :
    s.ExactlyOnce := by
  have hsound : s.UnorderedSound set := by
    refine Lts.Reach.invariant ?_ ?_ h
    · rintro s rfl
      exact Link.start_unorderedSound set
    · intro s op s' _ hs hok hstep
      exact hs.step hok hstep
  exact hsound.exactlyOnce

def unorderedOnly : ChannelSet := ⟨[.reliableUnordered], by decide⟩

/-- Two packets cross, and the first comes twice. -/
def crossing : List LinkOp :=
  [.send 0 [7], .smallBuild, .commit 0, .send 0 [8], .smallBuild, .commit 1, .read 1, .ack 1, .read 0, .read 0, .ack 0]

theorem unordered_exactly_once_crossing :
    ∃ s, Lts.Reach (linkSys unorderedOnly) Link.UnorderedRoom s ∧ s.ExactlyOnce ∧
      s.released = [⟨0, 1, [8]⟩, ⟨0, 0, [7]⟩] ∧ s.delivered = [⟨0, 1, [8]⟩, ⟨0, 0, [7]⟩] := by
  obtain ⟨s, hreach, hlogs⟩ : ∃ s, Lts.Reach (linkSys unorderedOnly) Link.UnorderedRoom s ∧
      s.released = [⟨0, 1, [8]⟩, ⟨0, 0, [7]⟩] ∧ s.delivered = [⟨0, 1, [8]⟩, ⟨0, 0, [7]⟩] :=
    Lts.Reach.ofRun Link.UnorderedRoom crossing _ (by decide +kernel)
  exact ⟨s, hreach, unordered_exactly_once hreach, hlogs⟩

/-- The first message's packet is delayed while 63 more messages are sent in
eight packets; the last of those is acknowledged, freeing its slots, and the
message sent into one of them, 64 past the first, is delivered before it. -/
def passing : List LinkOp :=
  [.send 0 [0], .smallBuild, .commit 0] ++
    (List.range 63).map (fun i => .send 0 [UInt8.ofNat (i + 1)]) ++
    (List.range 8).flatMap (fun i => [.smallBuild, .commit (i + 1)]) ++
    [.read 8, .ack 8, .send 0 [64], .smallBuild, .commit 9, .read 9, .read 0, .ack 0]

/-- **A message that comes late is refused**: it is released without ever
having been delivered. -/
theorem late_message_refused :
    ∃ s, Lts.Reachable (linkSys unorderedOnly) s ∧ ¬ s.ExactlyOnce ∧
      ∃ m ∈ s.released, s.receiver.kind m.channel = some .reliableUnordered ∧ (∀ x ∈ s.delivered, x.key ≠ m.key) ∧
        ((s.receiver.receivers m.channel).acceptUnordered m.id).2 = false := by
  obtain ⟨s, hreach, m, hm, hk, hlost, hrefused⟩ : ∃ s, Lts.Reachable (linkSys unorderedOnly) s ∧
      ∃ m ∈ s.released, s.receiver.kind m.channel = some .reliableUnordered ∧ (∀ x ∈ s.delivered, x.key ≠ m.key) ∧
        ((s.receiver.receivers m.channel).acceptUnordered m.id).2 = false :=
    Lts.Reach.ofRun (fun _ _ => True) passing _ (by decide +kernel)
  refine ⟨s, hreach, ?_, m, hm, hk, hlost, hrefused⟩
  rintro ⟨hall, -⟩
  have hmem : m ∈ s.delivered.filter (fun x => x.key == m.key) := by rw [hall m hm hk]; simp
  exact hlost m (List.mem_filter.1 hmem).1 rfl

end HexNet
