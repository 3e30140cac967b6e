/-
The send queue, operation by operation: what each does to the messages
pending, to the arena holding them, and to the packet being filled.

`Stocked c payload` ties the queue to the arena: every pending message is
live there, under the payload it was sent with. `writeFrames_carries` is the
packet a queue fills: the frames of messages it holds, one after another.
-/
import HexNet.Frames

namespace HexNet

/-- A staged message with its payload. -/
def Written.message (payload : MessageKey → List UInt8) (x : Written) : Message := ⟨x.channel, x.id, payload x.key⟩

/-- A staged message with the payload of its queue entry. -/
def Written.entryMessage (payload : MessageKey × ByteRef → List UInt8) (x : Written × ByteRef) : Message :=
  ⟨x.1.channel, x.1.id, payload (x.1.key, x.2)⟩

/-! ## Ids -/

/-- A counter within reach of its reference survives its sixteen bits. -/
theorem reconstruct_near {a r : Nat} (h₁ : a ≤ r + 32767) (h₂ : r ≤ a + 32768) (hlt : a < 2 ^ 64) :
    reconstruct r (UInt16.ofNat a) = some a := by
  have hahead : (UInt16.ofNat a - UInt16.ofNat r).toNat = (a + 65536 - r % 65536) % 65536 := by
    rw [UInt16.toNat_sub, UInt16.toNat_ofNat', UInt16.toNat_ofNat']
    omega
  have hfull : (r : Int) + (if (a + 65536 - r % 65536) % 65536 < 2 ^ 15 then
      (((a + 65536 - r % 65536) % 65536 : Nat) : Int) else ((a + 65536 - r % 65536) % 65536 : Nat) - 2 ^ 16) = a := by
    split <;> omega
  simp only [reconstruct, hahead, hfull]
  rw [if_pos (by omega), Int.toNat_natCast]

namespace MessageId

theorem fromWire_toWire {i r : MessageId} (h₁ : i.toNat ≤ r.toNat + 32767) (h₂ : r.toNat ≤ i.toNat + 32768) :
    fromWire r i.toWire = some i := by
  have hi := i.toNat_lt
  have hwire : i.toWire = UInt16.ofNat i.toNat := by
    rw [toWire, ← UInt16.toNat_inj, UInt32.toNat_toUInt16, UInt16.toNat_ofNat']
  rw [fromWire, hwire, reconstruct_near h₁ h₂ (by omega), Option.bind_some, if_pos hi, UInt32.ofNat_toNat]

theorem distanceFrom_eq {i r : MessageId} (h₁ : i.toNat < r.toNat + 2 ^ 31) (h₂ : r.toNat ≤ i.toNat + 2 ^ 31) :
    i.distanceFrom r = (i.toNat : Int) - r.toNat := by
  have hi := i.toNat_lt
  have hr := r.toNat_lt
  rw [distanceFrom, BitVec.toInt_eq_toNat_cond, UInt32.toNat_toBitVec, UInt32.toNat_sub]
  split <;> omega

end MessageId

namespace Channels

open BitFields

/-! ## What a pending message is, its mark apart -/

/-- The queue without its in-flight marks. -/
def queue (l : List Pending) : List (MessageKey × ByteRef) := l.map fun m => (m.key, m.bytes)

/-- The queue's messages as the arena owns them. -/
def live (payload : MessageKey × ByteRef → List UInt8) (l : List Pending) : List (ByteRef × List UInt8) :=
  l.map fun m => (m.bytes, payload (m.key, m.bytes))

theorem live_eq_queue (payload : MessageKey × ByteRef → List UInt8) (l : List Pending) :
    live payload l = (queue l).map fun e => (e.2, payload e) := by
  simp [live, queue]

theorem queue_modifyFirst (p : Pending → Bool) (mark : Bool) (l : List Pending) :
    queue (l.modifyFirst p fun m => { m with inFlight := mark }) = queue l := by
  apply List.map_modifyFirst
  intro m
  rfl

@[simp] theorem markLost_queue (c : Channels) (key : MessageKey) :
    queue (c.markLost key).pending.items = queue c.pending.items := queue_modifyFirst _ _ _

@[simp] theorem requeueOldest_queue (c : Channels) (n : Nat) :
    queue (c.requeueOldest n).pending.items = queue c.pending.items := by
  apply List.map_modifyUpTo
  intro m
  rfl

theorem mem_queue {l : List Pending} {key : MessageKey} {bytes : ByteRef} :
    (key, bytes) ∈ queue l ↔ ∃ m ∈ l, m.key = key ∧ m.bytes = bytes := by
  simp [queue]

/-- A release takes out the first message under its key, and frees it. -/
theorem releasePending_cases (c : Channels) (key : MessageKey) :
    (c.releasePending key = c ∧ ∀ m ∈ c.pending.items, m.key ≠ key) ∨
      ∃ before m after, c.pending.items = before ++ m :: after ∧ m.key = key ∧
        (c.releasePending key).pending.items = before ++ after ∧
        (c.releasePending key).sendArena = c.sendArena.release m.bytes ∧
        c.pending.items.find? (fun m => m.key == key) = some m := by
  unfold releasePending
  cases hfind : c.pending.items.find? fun m => m.key == key with
  | none =>
    refine .inl ⟨rfl, fun m hm he => ?_⟩
    have := List.find?_eq_none.1 hfind m hm
    simp [he] at this
  | some m =>
    obtain ⟨hm, before, after, hitems, hbefore⟩ := List.find?_eq_some_iff_append.1 hfind
    refine .inr ⟨before, m, after, hitems, by simpa using hm, ?_, rfl, rfl⟩
    show (c.pending.items.eraseP _) = before ++ after
    rw [hitems, List.eraseP_append_right _ (fun b hb => by simpa using hbefore b hb)]
    simp [hm]

theorem releasePending_set (c : Channels) (key : MessageKey) : (c.releasePending key).set = c.set := by
  unfold releasePending
  split <;> rfl

theorem releasePending_nextIds (c : Channels) (key : MessageKey) : (c.releasePending key).nextIds = c.nextIds := by
  unfold releasePending
  split <;> rfl

/-! ## The queue and its arena -/

/-- Every pending message is on a channel of the set, and live in the arena
under the payload it was sent with. -/
structure Stocked (c : Channels) (payload : MessageKey × ByteRef → List UInt8) : Prop where
  owns : c.sendArena.Owns (live payload c.pending.items)
  wired : ∀ m ∈ c.pending.items, (c.kind m.channel).isSome ∧ (payload (m.key, m.bytes)).length ≤ maxMessage

theorem new_stocked (set : ChannelSet) (payload : MessageKey × ByteRef → List UInt8) :
    (Channels.new set).Stocked payload where
  owns := Arena.new_owns (by decide) (by decide)
  wired := by simp [Channels.new]

/-- Operations that only move marks keep the stock. -/
theorem Stocked.of_queue {c c' : Channels} {payload : MessageKey × ByteRef → List UInt8} (h : c.Stocked payload)
    (hqueue : queue c'.pending.items = queue c.pending.items) (harena : c'.sendArena = c.sendArena)
    (hset : c'.set = c.set) : c'.Stocked payload where
  owns := by rw [harena, live_eq_queue, hqueue, ← live_eq_queue]; exact h.owns
  wired := by
    intro m hm
    have hmem : (m.key, m.bytes) ∈ queue c.pending.items := by rw [← hqueue]; exact mem_queue.2 ⟨m, hm, rfl, rfl⟩
    obtain ⟨m', hm', hkey, hbytes⟩ := mem_queue.1 hmem
    have hw := h.wired m' hm'
    rw [hkey, hbytes] at hw
    rw [kind, hset]
    have hchan : m'.channel = m.channel := congrArg MessageKey.channel hkey
    rw [← hchan]
    exact hw

/-- The payloads may be re-read wherever the pending ones agree. -/
theorem Stocked.congr {c : Channels} {payload payload' : MessageKey × ByteRef → List UInt8} (h : c.Stocked payload)
    (heq : ∀ m ∈ c.pending.items, payload' (m.key, m.bytes) = payload (m.key, m.bytes)) : c.Stocked payload' where
  owns := by
    have : live payload' c.pending.items = live payload c.pending.items :=
      List.map_congr_left fun m hm => by rw [heq m hm]
    rw [this]
    exact h.owns
  wired := fun m hm => by rw [heq m hm]; exact h.wired m hm

theorem Stocked.releasePending {c : Channels} {payload : MessageKey × ByteRef → List UInt8} (h : c.Stocked payload)
    (key : MessageKey) : (c.releasePending key).Stocked payload := by
  have hset := releasePending_set c key
  rcases releasePending_cases c key with ⟨heq, -⟩ | ⟨before, m, after, hitems, -, hitems', harena, -⟩
  · rw [heq]; exact h
  · have howns := h.owns
    rw [hitems, live, List.map_append, List.map_cons] at howns
    refine ⟨?_, fun m' hm' => ?_⟩
    · rw [harena, hitems', live, List.map_append]
      exact Arena.release_owns howns
    · rw [kind, hset]
      refine h.wired m' ?_
      rw [hitems'] at hm'
      rw [hitems]
      simp only [List.mem_append, List.mem_cons] at hm' ⊢
      tauto

/-- A send fails and changes nothing, or queues its message. -/
theorem send_cases {c : Channels} {payload : MessageKey × ByteRef → List UInt8} (h : c.Stocked payload) (channel : Nat)
    (bytes : List UInt8) :
    (∃ e, c.send channel bytes = (c, .error e)) ∨
      ∃ c' r, c.send channel bytes = (c', .ok ()) ∧
        c'.pending.items = c.pending.items ++ [⟨channel, c.nextIds channel, r, false⟩] ∧
        c'.sendArena.Owns (live payload c.pending.items ++ [(r, bytes)]) ∧
        c'.nextIds = Function.update c.nextIds channel (c.nextIds channel).next ∧
        c'.set = c.set ∧ (c.kind channel).isSome ∧ bytes.length ≤ maxMessage := by
  unfold send
  split
  · exact .inl ⟨_, rfl⟩
  next hlen =>
  split
  · exact .inl ⟨_, rfl⟩
  next hkind =>
  split
  · exact .inl ⟨_, rfl⟩
  next hfull =>
  have hfull' : c.pending.isFull = false := by simpa using hfull
  have hkind' : (c.kind channel).isSome := by simpa [Option.isSome_iff_ne_none] using hkind
  have hsmall : maxMessage = 1024 := rfl
  by_cases hfree : Arena.blocksFor bytes.length ≤ c.sendArena.freeCount
  · obtain ⟨a', r, hstore, howns, -⟩ := Arena.store_owns h.owns (by omega) hfree
    obtain ⟨hitems, hpushed⟩ := FixedVec.push_of_not_full hfull' ⟨channel, c.nextIds channel, r, false⟩
    rw [hstore]
    dsimp only
    rw [if_pos hpushed]
    exact .inr ⟨_, r, rfl, hitems, howns, rfl, rfl, hkind', by omega⟩
  · rw [Arena.store_eq_none (by omega)]
    exact .inl ⟨_, rfl⟩

/-- What a send that succeeds does. -/
theorem send_ok {c c' : Channels} {payload : MessageKey × ByteRef → List UInt8} {channel : Nat} {bytes : List UInt8}
    (h : c.Stocked payload) (hsend : c.send channel bytes = (c', .ok ())) :
    ∃ r, c'.pending.items = c.pending.items ++ [⟨channel, c.nextIds channel, r, false⟩] ∧
      c'.sendArena.Owns (live payload c.pending.items ++ [(r, bytes)]) ∧
      c'.nextIds = Function.update c.nextIds channel (c.nextIds channel).next ∧
      c'.set = c.set ∧ (c.kind channel).isSome ∧ bytes.length ≤ maxMessage := by
  obtain ⟨e, heq⟩ | ⟨c₁, r, heq, hqueued⟩ := send_cases h channel bytes
  · rw [heq] at hsend
    cases hsend
  · rw [heq] at hsend
    cases hsend
    exact ⟨r, hqueued⟩

/-- A send touches the queue, its bytes and the next ids at most. -/
theorem send_frame (c : Channels) (channel : Nat) (bytes : List UInt8) :
    ∃ pending sendArena nextIds, (c.send channel bytes).1 = { c with pending, sendArena, nextIds } := by
  unfold send
  split
  · exact ⟨_, _, _, rfl⟩
  · split
    · exact ⟨_, _, _, rfl⟩
    · split
      · exact ⟨_, _, _, rfl⟩
      · split
        · exact ⟨_, _, _, rfl⟩
        · dsimp only
          split
          · exact ⟨_, _, _, rfl⟩
          · exact ⟨_, _, _, rfl⟩

theorem send_set (c : Channels) (channel : Nat) (bytes : List UInt8) : (c.send channel bytes).1.set = c.set := by
  obtain ⟨pending, sendArena, nextIds, heq⟩ := c.send_frame channel bytes
  rw [heq]

/-- A send that fails changes nothing. -/
theorem send_error {c c' : Channels} {payload : MessageKey × ByteRef → List UInt8} {channel : Nat} {bytes : List UInt8}
    {e : SendError} (h : c.Stocked payload) (hsend : c.send channel bytes = (c', .error e)) : c' = c := by
  obtain ⟨e', heq⟩ | ⟨c₁, r, heq, -⟩ := send_cases h channel bytes
  · rw [heq] at hsend
    cases hsend
    rfl
  · rw [heq] at hsend
    cases hsend

/-! ## What the sender's steps leave -/

/-- The queue has moved marks and dropped messages, and nothing else. -/
structure Shrinks (c c' : Channels) : Prop where
  set_eq : c'.set = c.set
  next_eq : c'.nextIds = c.nextIds
  stocked : ∀ payload, c.Stocked payload → c'.Stocked payload
  sublist : (queue c'.pending.items).Sublist (queue c.pending.items)

theorem Shrinks.refl (c : Channels) : c.Shrinks c := ⟨rfl, rfl, fun _ h => h, .refl _⟩

theorem Shrinks.trans {c₁ c₂ c₃ : Channels} (h₁ : c₁.Shrinks c₂) (h₂ : c₂.Shrinks c₃) : c₁.Shrinks c₃ where
  set_eq := h₂.set_eq.trans h₁.set_eq
  next_eq := h₂.next_eq.trans h₁.next_eq
  stocked := fun payload h => h₂.stocked payload (h₁.stocked payload h)
  sublist := h₂.sublist.trans h₁.sublist

theorem Shrinks.kept {c c' : Channels} (h : c.Shrinks c') (m : Pending) (hm : m ∈ c'.pending.items) :
    ∃ m' ∈ c.pending.items, m'.key = m.key := by
  obtain ⟨m', hm', hkey, -⟩ := mem_queue.1 (h.sublist.mem (mem_queue.2 ⟨m, hm, rfl, rfl⟩))
  exact ⟨m', hm', hkey⟩

theorem Shrinks.of_queue {c c' : Channels} (hqueue : queue c'.pending.items = queue c.pending.items)
    (harena : c'.sendArena = c.sendArena) (hset : c'.set = c.set) (hnext : c'.nextIds = c.nextIds) : c.Shrinks c' where
  set_eq := hset
  next_eq := hnext
  stocked := fun _ h => h.of_queue hqueue harena hset
  sublist := by rw [hqueue]

/-- A queue that shrank without marking anything in flight. -/
structure Settles (c c' : Channels) : Prop extends Shrinks c c' where
  inFlight : ∀ m ∈ c'.pending.items, m.inFlight = true → m ∈ c.pending.items

theorem Settles.refl (c : Channels) : c.Settles c := ⟨.refl c, fun _ hm _ => hm⟩

theorem Settles.trans {c₁ c₂ c₃ : Channels} (h₁ : c₁.Settles c₂) (h₂ : c₂.Settles c₃) : c₁.Settles c₃ :=
  ⟨h₁.toShrinks.trans h₂.toShrinks, fun m hm hf => h₁.inFlight m (h₂.inFlight m hm hf) hf⟩

theorem markLost_settles (c : Channels) (key : MessageKey) : c.Settles (c.markLost key) := by
  refine ⟨.of_queue (markLost_queue c key) rfl rfl rfl, fun m hm hf => ?_⟩
  rcases List.mem_modifyFirst hm with hm | ⟨a, -, rfl⟩
  · exact hm
  · cases hf

theorem requeueOldest_settles (c : Channels) (n : Nat) : c.Settles (c.requeueOldest n) := by
  refine ⟨.of_queue (requeueOldest_queue c n) rfl rfl rfl, fun m hm hf => ?_⟩
  rcases List.mem_modifyUpTo hm with hm | ⟨a, -, rfl⟩
  · exact hm
  · cases hf

theorem releasePending_settles (c : Channels) (key : MessageKey) : c.Settles (c.releasePending key) := by
  have hsub : (c.releasePending key).pending.items.Sublist c.pending.items := by
    rcases releasePending_cases c key with ⟨heq, -⟩ | ⟨before, x, after, hitems, -, hitems', -⟩
    · rw [heq]
    · rw [hitems, hitems']
      exact (List.Sublist.refl before).append (List.sublist_cons_self x after)
  exact ⟨⟨releasePending_set c key, releasePending_nextIds c key, fun _ h => h.releasePending key, hsub.map _⟩,
    fun m hm _ => hsub.mem hm⟩

theorem foldl_settles {α : Type} {f : Channels → α → Channels} (hf : ∀ c a, Settles c (f c a)) (l : List α)
    (c : Channels) : c.Settles (l.foldl f c) := by
  induction l generalizing c with
  | nil => exact .refl c
  | cons a l ih => exact (hf c a).trans (ih (f c a))

theorem onAcked_settles (c : Channels) (record : PacketRecord) : c.Settles (c.onAcked record) :=
  foldl_settles releasePending_settles _ _

theorem onLost_settles (c : Channels) (record : PacketRecord) : c.Settles (c.onLost record) :=
  foldl_settles markLost_settles _ _

/-- What is left to commit, behind what has been. -/
theorem foldl_commitOne (l : List Written) (s : Channels × PacketRecord)
    (hroom : s.2.items.length + l.length ≤ maxMessagesPerPacket) :
    s.1.Settles (l.foldl commitOne s).1 ∧
      (l.foldl commitOne s).2.items = s.2.items ++ (l.filter (·.reliable)).map Written.key := by
  induction l generalizing s with
  | nil => exact ⟨.refl _, by simp⟩
  | cons x l ih =>
    rw [List.length_cons] at hroom
    rw [List.foldl_cons, commitOne]
    cases hrel : x.reliable with
    | true =>
      have hfull : s.2.isFull = false := FixedVec.isFull_eq_false (by omega)
      obtain ⟨hitems, -⟩ := FixedVec.push_of_not_full hfull x.key
      have hlen : (s.2.push x.key).1.items.length = s.2.items.length + 1 := by simp [hitems]
      obtain ⟨hsettles, hrecord⟩ := ih (s.1, (s.2.push x.key).1) (by dsimp only; omega)
      rw [if_pos rfl]
      refine ⟨hsettles, ?_⟩
      rw [hrecord, List.filter_cons_of_pos hrel, List.map_cons]
      simp only [hitems, List.append_assoc, List.singleton_append]
    | false =>
      obtain ⟨hsettles, hrecord⟩ := ih (s.1.releasePending x.key, s.2) (by dsimp only; omega)
      rw [if_neg Bool.false_ne_true]
      refine ⟨(releasePending_settles _ _).trans hsettles, ?_⟩
      rw [hrecord, List.filter_cons_of_neg (by simp [hrel])]

/-- A sent packet's record names the reliable messages it carried. -/
theorem onPacketSent_spec (c : Channels) (staged : PacketMessages) :
    c.Settles (c.onPacketSent staged).1 ∧
      (c.onPacketSent staged).2.items = (staged.items.filter (·.reliable)).map Written.key := by
  have h := foldl_commitOne staged.items (c, .empty) (by simpa using staged.le)
  exact h

/-! ## A queue in order, whatever its keys -/

/-- The payload the arena has for a queue entry. -/
def contents (c : Channels) (e : MessageKey × ByteRef) : List UInt8 := (c.sendArena.load e.2 maxMessage).getD []

/-- Every pending message is live in the arena. Ids wrap, so a key may name two
messages; their storage tells them apart. -/
def Intact (c : Channels) : Prop := c.Stocked c.contents

theorem Stocked.contents_eq {c : Channels} {payload : MessageKey × ByteRef → List UInt8} (h : c.Stocked payload)
    {m : Pending} (hm : m ∈ c.pending.items) : c.contents (m.key, m.bytes) = payload (m.key, m.bytes) := by
  have hload := Arena.load_owned h.owns (List.mem_map.2 ⟨m, hm, rfl⟩) (h.wired m hm).2
  rw [contents, hload, Option.getD_some]

theorem Stocked.intact {c : Channels} {payload : MessageKey × ByteRef → List UInt8} (h : c.Stocked payload) :
    c.Intact := h.congr fun _ hm => h.contents_eq hm

theorem new_intact (set : ChannelSet) : (Channels.new set).Intact := new_stocked set _

theorem Shrinks.intact {c c' : Channels} (hs : c.Shrinks c') (h : c.Intact) : c'.Intact := (hs.stocked _ h).intact

theorem Intact.sendSide {c c' : Channels} (h : c.Intact) (hside : c'.sendSide = c.sendSide) : c'.Intact := by
  obtain ⟨hset, -, hpending, harena⟩ : c'.set = c.set ∧ c'.nextIds = c.nextIds ∧ c'.pending = c.pending ∧
      c'.sendArena = c.sendArena := by simpa [Channels.sendSide] using hside
  exact (h.of_queue (by rw [hpending]) harena hset).intact

/-- A send that succeeds, by what the arena then has for each message. -/
theorem Intact.send_ok {c c' : Channels} (h : c.Intact) {channel : Nat} {bytes : List UInt8}
    (hsend : c.send channel bytes = (c', .ok ())) :
    ∃ r, c'.pending.items = c.pending.items ++ [⟨channel, c.nextIds channel, r, false⟩] ∧ c'.Intact ∧
      (∀ key, c'.contents (key, r) = bytes) ∧
      ∀ m ∈ c.pending.items, c'.contents (m.key, m.bytes) = c.contents (m.key, m.bytes) := by
  obtain ⟨r, hitems, howns, -, hset, hkind, hlen⟩ := Channels.send_ok h hsend
  -- what the arena has is what it owns, the new message included
  have hload : ∀ e ∈ live c.contents c.pending.items ++ [(r, bytes)], e.2.length ≤ maxMessage →
      (c'.sendArena.load e.1 maxMessage).getD [] = e.2 := fun e he hle => by
    rw [Arena.load_owned howns he hle, Option.getD_some]
  have hold : ∀ m ∈ c.pending.items, c'.contents (m.key, m.bytes) = c.contents (m.key, m.bytes) := fun m hm =>
    hload (m.bytes, c.contents (m.key, m.bytes)) (List.mem_append_left _ (List.mem_map.2 ⟨m, hm, rfl⟩))
      (h.wired m hm).2
  have hnew : ∀ key, c'.contents (key, r) = bytes := fun key => hload (r, bytes) (by simp) hlen
  refine ⟨r, hitems, ⟨?_, fun m hm => ?_⟩, hnew, hold⟩
  · have hlive : live c'.contents c'.pending.items = live c.contents c.pending.items ++ [(r, bytes)] := by
      rw [hitems, live, List.map_append, List.map_singleton, hnew]
      congr 1
      exact List.map_congr_left fun m hm => by rw [hold m hm]
    rw [hlive]
    exact howns
  · rw [kind, hset]
    rw [hitems] at hm
    rcases List.mem_append.1 hm with hm | hm
    · rw [hold m hm]
      exact h.wired m hm
    · rw [List.mem_singleton.1 hm, hnew]
      exact ⟨hkind, hlen⟩

theorem Intact.send {c : Channels} (h : c.Intact) (channel : Nat) (bytes : List UInt8) :
    (c.send channel bytes).1.Intact := by
  cases hsend : c.send channel bytes with
  | mk c' r =>
    cases r with
    | error e => rw [send_error h hsend]; exact h
    | ok u =>
      obtain ⟨-, -, hintact, -⟩ := h.send_ok hsend
      exact hintact

/-! ## The hold list -/

/-- Where the message a channel expects sits in the hold list, and what taking
it leaves. -/
theorem nextHeld_split {c : Channels} {channel : Nat} {entry : Held} (hnext : c.nextHeld channel = some entry) :
    entry.key = ⟨channel, (c.receivers channel).expected⟩ ∧
      ∃ before after, c.held.items = before ++ entry :: after ∧
        (c.held.removeFirst fun e => e.key == entry.key).items = before ++ after := by
  obtain ⟨hkey, before, after, hitems, hbefore⟩ := List.find?_eq_some_iff_append.1 hnext
  have hkey : entry.key = ⟨channel, (c.receivers channel).expected⟩ := by simpa using hkey
  refine ⟨hkey, before, after, hitems, ?_⟩
  show c.held.items.eraseP _ = _
  rw [hitems, List.eraseP_append_right _ (fun b hb => by rw [hkey]; simpa using hbefore b hb)]
  simp

/-! ## The receiving half under the sender's operations -/

/-- The half of the channels that receives. -/
def recvSide (c : Channels) : ChannelSet × (Nat → ReceiverState) × FixedVec Held maxHeld × Arena arenaBlocks :=
  (c.set, c.receivers, c.held, c.recvArena)

theorem recvSide_eq {c c' : Channels} (h : c'.recvSide = c.recvSide) : c'.set = c.set ∧ c'.receivers = c.receivers ∧
    c'.held = c.held ∧ c'.recvArena = c.recvArena := by simpa [recvSide] using h

theorem send_recvSide (c : Channels) (channel : Nat) (bytes : List UInt8) :
    (c.send channel bytes).1.recvSide = c.recvSide := by
  obtain ⟨pending, sendArena, nextIds, heq⟩ := c.send_frame channel bytes
  rw [heq]
  rfl

theorem releasePending_recvSide (c : Channels) (key : MessageKey) : (c.releasePending key).recvSide = c.recvSide := by
  unfold releasePending
  split <;> rfl

theorem foldl_recvSide {α : Type} {f : Channels → α → Channels} (hf : ∀ c a, (f c a).recvSide = c.recvSide)
    (l : List α) (c : Channels) : (l.foldl f c).recvSide = c.recvSide := by
  induction l generalizing c with
  | nil => rfl
  | cons a l ih => rw [List.foldl_cons, ih, hf]

theorem onPacketSent_recvSide (c : Channels) (staged : PacketMessages) :
    (c.onPacketSent staged).1.recvSide = c.recvSide := by
  have hfold : ∀ (l : List Written) (s : Channels × PacketRecord),
      (l.foldl commitOne s).1.recvSide = s.1.recvSide := by
    intro l
    induction l with
    | nil => exact fun _ => rfl
    | cons x l ih =>
      intro s
      rw [List.foldl_cons, ih, commitOne]
      split
      · rfl
      · exact releasePending_recvSide _ _
  exact hfold _ _

/-! ## Filling a packet -/

/-- What filling has done so far, from a queue `before` and a writer holding
`gs`: the messages `new` staged and marked, their frames written. -/
structure Carrying (set : ChannelSet) (payload : MessageKey × ByteRef → List UInt8) (before : List Pending)
    (gs : List (Nat × Nat)) (len : Nat) (staged : List Written) (new : List (Written × ByteRef)) (s : Filling) :
    Prop where
  staged_eq : s.staged.items = staged ++ new.map Prod.fst
  holds : s.w.Holds (gs ++ framesFields set (width gs) (new.map (Written.entryMessage payload)))
  len_eq : s.w.buf.length = len
  queue_eq : queue s.pending.items = queue before
  marked : ∀ m ∈ s.pending.items, m ∈ before ∨ ∃ x ∈ new, x.1.key = m.key
  queued : ∀ x ∈ new, (x.1.key, x.2) ∈ queue before ∧
    ∃ kind, set.kind x.1.channel = some kind ∧ x.1.reliable = kind.isReliable
  wrote_eq : s.wrote = !new.isEmpty

theorem carrying_step {set : ChannelSet} {arena : Arena arenaBlocks} {limit start : Nat}
    {payload : MessageKey × ByteRef → List UInt8} {before : List Pending} {gs : List (Nat × Nat)} {len : Nat}
    {staged : List Written} (howns : arena.Owns ((queue before).map fun e => (e.2, payload e)))
    (hwired : ∀ e ∈ queue before, (payload e).length ≤ maxMessage) {s s' : Filling}
    (h : ∃ new, Carrying set payload before gs len staged new s) (hstep : FillStep set arena limit start s s') :
    ∃ new, Carrying set payload before gs len staged new s' := by
  obtain ⟨new, h⟩ := h
  -- a frame's fields, wherever the packet stands
  have hemits : ∀ {channel kind m}, set.kind channel = some kind →
      s.pending.items.find? (fun m => m.channel == channel && !m.inFlight) = some m →
      m.channel = channel ∧ (m.key, m.bytes) ∈ queue before ∧
        ∀ p, BitWriter.Emits p (writeFrame kind m arena) (frameFields p kind ⟨channel, m.id, payload (m.key, m.bytes)⟩) := by
    intro channel kind m hkind hfind
    have hchan : m.channel = channel := by
      have := List.find?_some hfind
      simp only [Bool.and_eq_true, beq_iff_eq] at this
      exact this.1
    have hq : (m.key, m.bytes) ∈ queue before := by
      rw [← h.queue_eq]
      exact mem_queue.2 ⟨m, List.mem_of_find?_eq_some hfind, rfl, rfl⟩
    have hlive : (m.bytes, payload (m.key, m.bytes)) ∈ (queue before).map fun e => (e.2, payload e) :=
      List.mem_map.2 ⟨_, hq, rfl⟩
    refine ⟨hchan, hq, fun p => ?_⟩
    subst hchan
    obtain ⟨cs, hst, -⟩ := howns.chain hlive
    exact writeFrame_emits p kind (kind_lt hkind) hst.count (hwired _ hq) (Arena.chunks_owned howns hlive)
  cases hstep with
  | @stage channel kind m w hkind hfind hfull hrun hlimit =>
    obtain ⟨hchan, hq, hframe⟩ := hemits hkind hfind
    obtain ⟨hold, hlen⟩ := (hframe _).ok h.holds rfl hrun
    obtain ⟨hitems, -⟩ := FixedVec.push_of_not_full hfull ⟨channel, m.id, kind.isReliable⟩
    have hkey : m.key = Written.key ⟨channel, m.id, kind.isReliable⟩ := by rw [Pending.key, hchan]; rfl
    refine ⟨new ++ [(⟨channel, m.id, kind.isReliable⟩, m.bytes)], ?_, ?_, ?_, ?_, ?_, ?_, ?_⟩
    · rw [hitems, h.staged_eq, List.append_assoc, List.map_append]
      rfl
    · rw [List.map_append, framesFields_append]
      simp only [List.map_cons, List.map_nil, framesFields, Written.entryMessage, hkind, Option.getD_some, List.append_nil,
        ← hkey]
      rw [← List.append_assoc]
      rw [width_append] at hold
      exact hold
    · rw [hlen, h.len_eq]
    · rw [← h.queue_eq]
      exact queue_modifyFirst _ _ _
    · intro m' hm'
      rcases List.mem_modifyFirst hm' with hm' | ⟨a, ha, rfl⟩
      · rcases h.marked m' hm' with hfree | ⟨x, hx, hk⟩
        · exact .inl hfree
        · exact .inr ⟨x, by simp [hx], hk⟩
      · obtain rfl : m = a := Option.some.inj (hfind.symm.trans ha)
        exact .inr ⟨(⟨channel, m.id, kind.isReliable⟩, m.bytes), by simp, hkey.symm⟩
    · intro x hx
      rcases List.mem_append.1 hx with hx | hx
      · exact h.queued x hx
      · rw [List.mem_singleton] at hx
        subst hx
        exact ⟨by rw [← hkey]; exact hq, kind, hkind, rfl⟩
    · simp
  | @undo channel kind m w hkind hfind hrun =>
    obtain ⟨-, -, hframe⟩ := hemits hkind hfind
    obtain ⟨hold, hlen⟩ := (hframe _).rollback h.holds rfl hrun
    exact ⟨new, h.staged_eq, hold, by rw [hlen, h.len_eq], h.queue_eq, h.marked, h.queued, h.wrote_eq⟩

/-- **What a packet is filled with**: frames of queued messages, staged in the
order they are written. -/
theorem writeFrames_carries {c : Channels} {payload : MessageKey × ByteRef → List UInt8} (h : c.Stocked payload)
    {w : BitWriter} {gs : List (Nat × Nat)} (hw : w.Holds gs) (staged : PacketMessages) (limit : Nat) :
    ∃ new, Carrying c.set payload c.pending.items gs w.buf.length staged.items new
      ⟨(c.writeFrames w staged limit).1.pending, (c.writeFrames w staged limit).2.1,
        (c.writeFrames w staged limit).2.2.1, (c.writeFrames w staged limit).2.2.2⟩ := by
  have howns := h.owns
  rw [live_eq_queue] at howns
  have hwired : ∀ e ∈ queue c.pending.items, (payload e).length ≤ maxMessage := by
    rintro ⟨key, bytes⟩ he
    obtain ⟨m, hm, rfl, rfl⟩ := mem_queue.1 he
    exact (h.wired m hm).2
  have hstart : ∃ new, Carrying c.set payload c.pending.items gs w.buf.length staged.items new
      ⟨c.pending, w, staged, false⟩ :=
    ⟨[], by simp, by simpa [framesFields] using hw, rfl, rfl, fun m hm => .inl hm, by simp, rfl⟩
  exact fillChannels_rule (fun s s' hs hstep => carrying_step howns hwired hs hstep) _ hstart

/-- The message reported first is one the wire can carry. -/
theorem Intact.nextUnsentLen_le {c : Channels} (h : c.Intact) {len : Nat} (hnext : c.nextUnsentLen = some len) :
    len ≤ maxMessage := by
  obtain ⟨channel, -, hfirst⟩ := List.exists_of_findSome?_eq_some hnext
  obtain ⟨m, hfind, rfl⟩ := Option.map_eq_some_iff.1 hfirst
  have hm := List.mem_of_find?_eq_some hfind
  obtain ⟨cs, hst, -⟩ := h.owns.chain (List.mem_map.2 ⟨m, hm, rfl⟩)
  rw [ByteRef.len, hst.count]
  exact (h.wired m hm).2

end Channels
end HexNet
