/-
The ledger hands every record back exactly once.

Four paths take a record out of the ring: the acknowledgement, its history
bits, the loss scan, and a send into an occupied slot. `Tracks` says what the
ring holds of each packet against what `notify` has been told of it; each
path is one `Move` of one packet's state with the notice it gives, so each
operation keeps `Tracks` by the same lemma, `Tracks.tell`.

`ledger_exactly_once` is about every run: sends of strictly increasing
sequences, acknowledgements of anything sent, timeouts and path changes, at
any times and in any order.
-/
import HexNet.Ack
import HexNet.Lib.Lts
import Mathlib.Data.List.Nodup
import Mathlib.Data.List.Perm.Subperm
import Mathlib.Data.Fintype.Card

namespace HexNet.Ack

variable {P : Type}

/-- Whether a notice hands a record back. -/
def Resolved.isOutcome : Resolved P → Bool
  | .acked _ | .lost _ => true
  | .spurious => false

/-- What `notify` was told of packet `q`, oldest first. -/
def history (ns : List (Notice P)) (q : Nat) : List (Resolved P) :=
  (ns.filter (·.sequence == q)).map (·.what)

@[simp] theorem history_nil (q : Nat) : history ([] : List (Notice P)) q = [] := rfl

theorem history_append (ns ms : List (Notice P)) (q : Nat) :
    history (ns ++ ms) q = history ns q ++ history ms q := by
  simp [history]

theorem history_one (n : Notice P) (q : Nat) :
    history [n] q = if q = n.sequence then [n.what] else [] := by
  by_cases h : q = n.sequence
  · simp [history, h]
  · simp [history, h, Ne.symm h]

/-- How many records were handed back. -/
def outcomes (ns : List (Notice P)) : Nat := (ns.filter (·.what.isOutcome)).length

theorem outcomes_append (ns ms : List (Notice P)) : outcomes (ns ++ ms) = outcomes ns + outcomes ms := by
  simp [outcomes]

theorem outcomes_one (n : Notice P) : outcomes [n] = if n.what.isOutcome then 1 else 0 := by
  simp only [outcomes, List.filter_cons, List.filter_nil]
  split <;> rfl

theorem mem_history {ns : List (Notice P)} {n : Notice P} (h : n ∈ ns) :
    n.what ∈ history ns n.sequence := by
  simp only [history, List.mem_map, List.mem_filter]
  exact ⟨n, ⟨h, by simp⟩, rfl⟩

theorem count_outcomes (ns : List (Notice P)) (q : Nat) :
    ((ns.filter (·.what.isOutcome)).map (·.sequence)).count q =
      ((history ns q).filter (·.isOutcome)).length := by
  induction ns with
  | nil => rfl
  | cons n ns ih =>
    simp only [history] at ih ⊢
    by_cases hq : n.sequence = q <;> by_cases ho : n.what.isOutcome <;>
      simp [hq, ho, ih]

/-! ## One packet -/

/-- A packet's whole story: unresolved, acknowledged, lost, or lost and
acknowledged late. -/
def Story (r : P) (h : List (Resolved P)) : Prop :=
  h = [.acked r] ∨ h = [.lost r] ∨ h = [.lost r, .spurious]

/-- What the ring's state for a packet says `notify` was told of it. -/
def Told (r : P) : State P → List (Resolved P) → Prop
  | .inFlight p, h => p = r ∧ h = []
  | .lost, h => h = [.lost r]
  | .acked, h => h = [.acked r] ∨ h = [.lost r, .spurious]

/-- A change of one packet's state, and the notice it gives. -/
inductive Move : State P → State P → Resolved P → Prop
  | ack (p : P) : Move (.inFlight p) .acked (.acked p)
  | lose (p : P) : Move (.inFlight p) .lost (.lost p)
  | late : Move .lost .acked .spurious

theorem Told.move {r : P} {st st' : State P} {w : Resolved P} {h : List (Resolved P)} (ht : Told r st h)
    (hm : Move st st' w) : Told r st' (h ++ [w]) := by
  cases hm with
  | ack p => obtain ⟨rfl, rfl⟩ := ht; exact .inl rfl
  | lose p => obtain ⟨rfl, rfl⟩ := ht; rfl
  | late => simp only [Told] at ht; subst ht; exact .inr rfl

theorem Told.story {r : P} {st : State P} {h : List (Resolved P)} (ht : Told r st h) :
    h = [] ∨ Story r h := by
  cases st with
  | inFlight p => exact .inl ht.2
  | acked => exact .inr (ht.elim .inl fun h => .inr (.inr h))
  | lost => exact .inr (.inr (.inl ht))

theorem Story.outcomes_eq {r : P} {h : List (Resolved P)} (hs : Story r h) :
    (h.filter (·.isOutcome)).length = 1 := by
  rcases hs with rfl | rfl | rfl <;> rfl

/-! ## The ring against the notices -/

variable {N : Nat} [NeZero N]

/-- The ring `sent` holding `n` packets in flight, after the ack-eliciting
sends `sends` and the notices `ns`. -/
structure Tracks (sent : SequenceBuffer (Sent P) N) (largestSent : Option Nat) (n : Nat)
    (sends : List (Nat × P)) (ns : List (Notice P)) : Prop where
  nodup : (sends.map Prod.fst).Nodup
  below : ∀ q r, (q, r) ∈ sends → ∃ l, largestSent = some l ∧ q ≤ l
  quiet : ∀ q, q ∉ sends.map Prod.fst → history ns q = []
  held : ∀ q e, sent.get q = some e → ∃ r, (q, r) ∈ sends ∧ Told r e.state (history ns q)
  gone : ∀ q r, (q, r) ∈ sends → sent.get q = none → Story r (history ns q)
  count : n + outcomes ns = sends.length

namespace Tracks

variable {sent : SequenceBuffer (Sent P) N} {largestSent : Option Nat} {n : Nat}
  {sends : List (Nat × P)} {ns : List (Notice P)}

theorem same (t : Tracks sent largestSent n sends ns) {q : Nat} {r r' : P} (h : (q, r) ∈ sends)
    (h' : (q, r') ∈ sends) : r = r' := by
  have := List.inj_on_of_nodup_map t.nodup h h' rfl
  simpa using this

theorem story (t : Tracks sent largestSent n sends ns) {q : Nat} {r : P} (h : (q, r) ∈ sends) :
    history ns q = [] ∨ Story r (history ns q) := by
  cases hq : sent.get q with
  | none => exact .inr (t.gone q r h hq)
  | some e =>
    obtain ⟨r', hr', ht⟩ := t.held q e hq
    rw [t.same h hr']
    exact ht.story

theorem cases_history (t : Tracks sent largestSent n sends ns) (q : Nat) :
    history ns q = [] ∨ ∃ r, (q, r) ∈ sends ∧ Story r (history ns q) := by
  by_cases hq : q ∈ sends.map Prod.fst
  · obtain ⟨⟨q', r⟩, hmem, rfl⟩ := List.mem_map.1 hq
    exact (t.story hmem).imp id fun h => ⟨r, hmem, h⟩
  · exact .inl (t.quiet q hq)

theorem outcomes_le (t : Tracks sent largestSent n sends ns) (q : Nat) :
    ((history ns q).filter (·.isOutcome)).length ≤ 1 := by
  rcases t.cases_history q with h | ⟨r, -, h⟩
  · simp [h]
  · exact Nat.le_of_eq h.outcomes_eq

/-- A packet not told of before `more` is in flight, or `more` hands its record
back. -/
theorem outcome {more : List (Notice P)} (t : Tracks sent largestSent n sends (ns ++ more)) {q : Nat} {r : P}
    (h : (q, r) ∈ sends) (hnil : history ns q = []) :
    (∃ sentAt, sent.get q = some ⟨sentAt, .inFlight r⟩) ∨ ∃ m ∈ more, m.what = .acked r ∨ m.what = .lost r := by
  have hhist : history (ns ++ more) q = history more q := by rw [history_append, hnil, List.nil_append]
  have htold : ∀ w ∈ history more q, ∃ m ∈ more, m.what = w := by
    intro w hw
    obtain ⟨m, hm, rfl⟩ := List.mem_map.1 hw
    exact ⟨m, (List.mem_filter.1 hm).1, rfl⟩
  have hstory : Story r (history more q) → ∃ m ∈ more, m.what = .acked r ∨ m.what = .lost r := by
    rintro (hs | hs | hs)
    · obtain ⟨m, hm, hw⟩ := htold (.acked r) (by simp [hs])
      exact ⟨m, hm, .inl hw⟩
    · obtain ⟨m, hm, hw⟩ := htold (.lost r) (by simp [hs])
      exact ⟨m, hm, .inr hw⟩
    · obtain ⟨m, hm, hw⟩ := htold (.lost r) (by simp [hs])
      exact ⟨m, hm, .inr hw⟩
  cases hget : sent.get q with
  | none => exact .inr (hstory (hhist ▸ t.gone q r h hget))
  | some e =>
    obtain ⟨r', hr', ht⟩ := t.held q e hget
    obtain rfl := t.same h hr'
    obtain ⟨sentAt, st⟩ := e
    cases st with
    | inFlight p => exact .inl ⟨sentAt, by rw [ht.1]⟩
    | acked => exact .inr (hstory (hhist ▸ ht.elim .inl fun h => .inr (.inr h)))
    | lost => exact .inr (hstory (hhist ▸ .inr (.inl ht)))

/-- Those handed back are distinct packets. -/
theorem nodup_outcomes (t : Tracks sent largestSent n sends ns) :
    ((ns.filter (·.what.isOutcome)).map (·.sequence)).Nodup := by
  rw [List.nodup_iff_count_le_one]
  intro q
  rw [count_outcomes]
  exact t.outcomes_le q

theorem mem_outcomes (t : Tracks sent largestSent n sends ns) (q : Nat) :
    q ∈ (ns.filter (·.what.isOutcome)).map (·.sequence) ↔
      q ∈ sends.map Prod.fst ∧ history ns q ≠ [] := by
  rw [← List.count_pos_iff, count_outcomes]
  rcases t.cases_history q with h | ⟨r, hmem, h⟩
  · simp [h]
  · have hne : history ns q ≠ [] := by rcases h with h | h | h <;> simp [h]
    simp only [h.outcomes_eq, Nat.zero_lt_one, hne, ne_eq, not_false_eq_true, and_true, true_iff]
    exact List.mem_map_of_mem hmem

/-- The packets not handed back are the ones counted in flight. -/
theorem unresolved_length (t : Tracks sent largestSent n sends ns) :
    ((sends.map Prod.fst).filter fun q => (history ns q).isEmpty).length = n := by
  have hperm : ((ns.filter (·.what.isOutcome)).map (·.sequence)).Perm
      ((sends.map Prod.fst).filter fun q => !(history ns q).isEmpty) := by
    rw [List.perm_ext_iff_of_nodup t.nodup_outcomes (t.nodup.filter _)]
    intro q
    rw [t.mem_outcomes, List.mem_filter]
    simp
  have hlen := hperm.length_eq
  have hsplit := (List.filter_append_perm (fun q => (history ns q).isEmpty) (sends.map Prod.fst)).length_eq
  have hcount := t.count
  simp only [List.length_append, List.length_map, outcomes] at hlen hsplit hcount
  omega

/-- Each packet in flight has a slot of its own. -/
theorem le_slots (t : Tracks sent largestSent n sends ns) : n ≤ N := by
  have hslot : ∀ q ∈ (sends.map Prod.fst).filter fun q => (history ns q).isEmpty,
      ∃ e, sent.slots (ringSlot N q) = some e ∧ e.seq = q := by
    intro q hq
    obtain ⟨hmem, hnil⟩ := List.mem_filter.1 hq
    obtain ⟨⟨q', r⟩, hr, rfl⟩ := List.mem_map.1 hmem
    cases hget : sent.get q' with
    | none =>
      have := t.gone q' r hr hget
      simp only [List.isEmpty_iff] at hnil
      rcases this with h | h | h <;> simp [hnil] at h
    | some e => exact ⟨_, SequenceBuffer.slot_of_get hget, rfl⟩
  have hnodup := (t.nodup.filter fun q => (history ns q).isEmpty).map_on (f := ringSlot N) (by
    intro q hq q' hq' he
    obtain ⟨e, h₁, h₂⟩ := hslot q hq
    obtain ⟨e', h₁', h₂'⟩ := hslot q' hq'
    rw [he, h₁', Option.some.injEq] at h₁
    rw [← h₂, ← h₂', h₁])
  have hle := hnodup.length_le_card
  simpa [t.unresolved_length] using hle

/-- A packet in flight is counted in flight. -/
theorem pos (t : Tracks sent largestSent n sends ns) {q : Nat} {sentAt : Timestamp} {p : P}
    (h : sent.get q = some ⟨sentAt, .inFlight p⟩) : 0 < n := by
  obtain ⟨r, hmem, -, hq⟩ := t.held q _ h
  have hmem' : q ∈ (sends.map Prod.fst).filter fun q => (history ns q).isEmpty :=
    List.mem_filter.2 ⟨List.mem_map_of_mem hmem, by simp [hq]⟩
  rw [← t.unresolved_length]
  exact List.length_pos_of_mem hmem'

/-- One packet's move, with its notice. -/
theorem tell (t : Tracks sent largestSent n sends ns) {q : Nat} {e : Sent P} {st : State P}
    {w : Resolved P} (h : sent.get q = some e) (hm : Move e.state st w) :
    Tracks (sent.set q ⟨e.sentAt, st⟩) largestSent (if w.isOutcome then n - 1 else n) sends
      (ns ++ [⟨q, w⟩]) := by
  obtain ⟨r, hmem, htold⟩ := t.held q e h
  have hget := SequenceBuffer.get_set h ⟨e.sentAt, st⟩
  have hhist : ∀ q', history (ns ++ [⟨q, w⟩]) q' = history ns q' ++ if q' = q then [w] else [] := by
    intro q'; rw [history_append, history_one]
  refine ⟨t.nodup, t.below, ?_, ?_, ?_, ?_⟩
  · intro q' hq'
    have hne : q' ≠ q := fun he => hq' (he ▸ List.mem_map_of_mem hmem)
    rw [hhist, t.quiet q' hq']
    simp [hne]
  · intro q' e' he'
    rw [hget] at he'
    by_cases hqq : q' = q
    · subst hqq
      simp only [ite_true, Option.some.injEq] at he'
      subst he'
      refine ⟨r, hmem, ?_⟩
      rw [hhist]
      simpa using htold.move hm
    · simp only [hqq, ite_false] at he'
      obtain ⟨r', hr', ht'⟩ := t.held q' e' he'
      refine ⟨r', hr', ?_⟩
      rw [hhist]
      simpa [hqq] using ht'
  · intro q' r' hr' hnone
    rw [hget] at hnone
    by_cases hqq : q' = q
    · simp [hqq] at hnone
    · simp only [hqq, ite_false] at hnone
      rw [hhist]
      simpa [hqq] using t.gone q' r' hr' hnone
  · have hcount := t.count
    rw [outcomes_append, outcomes_one]
    obtain ⟨sentAt, st₀⟩ := e
    cases hm with
    | ack p => have := t.pos h; simp only [Resolved.isOutcome, ite_true]; omega
    | lose p => have := t.pos h; simp only [Resolved.isOutcome, ite_true]; omega
    | late => simp only [Resolved.isOutcome]; simpa using hcount

/-- A packet confirmed again: nothing is told and nothing changes. -/
theorem again (t : Tracks sent largestSent n sends ns) {q : Nat} {sentAt : Timestamp}
    (h : sent.get q = some ⟨sentAt, .acked⟩) :
    Tracks (sent.set q ⟨sentAt, .acked⟩) largestSent n sends ns := by
  have hget : ∀ q', (sent.set q ⟨sentAt, .acked⟩).get q' = sent.get q' := by
    intro q'
    rw [SequenceBuffer.get_set h]
    by_cases hq : q' = q
    · simp [hq, h]
    · simp [hq]
  exact ⟨t.nodup, t.below, t.quiet, fun q' e he => t.held q' e (hget q' ▸ he),
    fun q' r hr hn => t.gone q' r hr (hget q' ▸ hn), t.count⟩

/-- A fresh packet takes a slot whose occupant, if any, is resolved. -/
theorem put (t : Tracks sent largestSent n sends ns) {q : Nat} {r : P} (now : Timestamp)
    (hfresh : ∀ l, largestSent = some l → l < q)
    (hslot : ∀ e, sent.slots (ringSlot N q) = some e → ∀ p, e.item.state ≠ .inFlight p) :
    Tracks (sent.put ⟨q, ⟨now, .inFlight r⟩⟩) (some (largestSent.elim q fun l => max l q)) (n + 1)
      (sends ++ [(q, r)]) ns := by
  have hlt : ∀ q' r', (q', r') ∈ sends → q' < q := by
    intro q' r' h
    obtain ⟨l, hl, hle⟩ := t.below q' r' h
    exact Nat.lt_of_le_of_lt hle (hfresh l hl)
  have hnew : q ∉ sends.map Prod.fst := by
    intro hq
    obtain ⟨⟨q', r'⟩, hmem, rfl⟩ := List.mem_map.1 hq
    exact Nat.lt_irrefl _ (hlt _ _ hmem)
  have hget := SequenceBuffer.get_put sent ⟨q, ⟨now, State.inFlight r⟩⟩
  refine ⟨?_, ?_, ?_, ?_, ?_, ?_⟩
  · rw [List.map_append, List.nodup_append]
    refine ⟨t.nodup, by simp, ?_⟩
    intro a ha b hb hab
    simp only [List.map_cons, List.map_nil, List.mem_singleton] at hb
    exact hnew (by rw [← hb, ← hab]; exact ha)
  · intro q' r' h
    refine ⟨_, rfl, ?_⟩
    rcases List.mem_append.1 h with h | h
    · have := hlt q' r' h
      cases hl : largestSent with
      | none => simp only [Option.elim]; omega
      | some l => simp only [Option.elim]; omega
    · simp only [List.mem_singleton, Prod.mk.injEq] at h
      cases hl : largestSent with
      | none => simp only [Option.elim]; omega
      | some l => simp only [Option.elim]; omega
  · intro q' hq'
    apply t.quiet
    intro h
    exact hq' (by rw [List.map_append]; exact List.mem_append_left _ h)
  · intro q' e he
    rw [hget] at he
    by_cases hqq : q' = q
    · subst hqq
      simp only [ite_true, Option.some.injEq] at he
      subst he
      exact ⟨r, by simp, rfl, t.quiet _ hnew⟩
    · simp only [hqq, ite_false] at he
      split at he
      · cases he
      · obtain ⟨r', hr', ht'⟩ := t.held q' e he
        exact ⟨r', List.mem_append_left _ hr', ht'⟩
  · intro q' r' hr' hnone
    rw [hget] at hnone
    by_cases hqq : q' = q
    · simp [hqq] at hnone
    · have hr' : (q', r') ∈ sends := by simpa [hqq] using hr'
      simp only [hqq, ite_false] at hnone
      split at hnone
      · next hs =>
        -- The slot was `q'`'s or another's; either way `q'` is resolved.
        cases hgot : sent.get q' with
        | none => exact t.gone q' r' hr' hgot
        | some e =>
          obtain ⟨r'', hr'', ht⟩ := t.held q' e hgot
          have hin := SequenceBuffer.slot_of_get hgot
          rw [hs] at hin
          rw [t.same hr' hr'']
          refine ht.story.resolve_left fun hnil => ?_
          rw [hnil] at ht
          obtain ⟨sentAt, st⟩ := e
          cases st with
          | inFlight p => exact hslot _ hin p rfl
          | acked => simp [Told] at ht
          | lost => simp [Told] at ht
      · exact t.gone q' r' hr' hnone
  · have := t.count
    simp only [List.length_append, List.length_singleton]
    omega

end Tracks

/-! ## The operations -/

namespace Delivery

/-- The ledger tracks `sends` and has told `ns`. -/
abbrev Tracking (d : Delivery P N) (sends : List (Nat × P)) (ns : List (Notice P)) : Prop :=
  Tracks d.sent d.largestSent d.inFlight sends ns

/-- Only the oldest unresolved number moves. -/
theorem advanceOldest_shape (d : Delivery P N) : ∃ oldest, d.advanceOldest = { d with oldestUnresolved := oldest } := by
  unfold advanceOldest
  split
  · exact ⟨d.oldestUnresolved, rfl⟩
  · exact ⟨_, rfl⟩

@[simp] theorem advanceOldest_sent (d : Delivery P N) : d.advanceOldest.sent = d.sent := by
  obtain ⟨oldest, heq⟩ := d.advanceOldest_shape
  rw [heq]

@[simp] theorem advanceOldest_largestSent (d : Delivery P N) :
    d.advanceOldest.largestSent = d.largestSent := by
  obtain ⟨oldest, heq⟩ := d.advanceOldest_shape
  rw [heq]

@[simp] theorem advanceOldest_inFlight (d : Delivery P N) : d.advanceOldest.inFlight = d.inFlight := by
  obtain ⟨oldest, heq⟩ := d.advanceOldest_shape
  rw [heq]

theorem Tracking.advanceOldest {d : Delivery P N} {sends : List (Nat × P)} {ns : List (Notice P)}
    (t : d.Tracking sends ns) : d.advanceOldest.Tracking sends ns := by
  simpa [Tracking] using t

variable {d : Delivery P N} {sends : List (Nat × P)} {ns : List (Notice P)}

theorem Tracking.resolve (t : d.Tracking sends ns) (q : Nat) :
    (d.resolve q).1.Tracking sends (ns ++ (d.resolve q).2.1) := by
  unfold Delivery.resolve
  split
  · simpa using t
  · next e he =>
    obtain ⟨sentAt, st⟩ := e
    cases st with
    | acked => simpa using t.again he
    | lost => simpa [Tracking, Resolved.isOutcome] using t.tell he .late
    | inFlight p => simpa [Tracking, Resolved.isOutcome] using t.tell he (.ack p)

theorem Tracking.resolveBits (ack : Nat) (bits : BitVec 32) (k offset : Nat) :
    ∀ {d : Delivery P N} {ns : List (Notice P)}, d.Tracking sends ns →
      (Delivery.resolveBits ack bits k offset d).1.Tracking sends
        (ns ++ (Delivery.resolveBits ack bits k offset d).2.1) := by
  induction k generalizing offset with
  | zero => intro d ns t; simpa [Delivery.resolveBits] using t
  | succ k ih =>
    intro d ns t
    simp only [Delivery.resolveBits]
    split
    · exact ih _ t
    · next seq _ =>
      have := ih (offset + 1) (t.resolve seq)
      simpa [List.append_assoc] using this

theorem Tracking.scanLost (now : Timestamp) (delay : Span) (threshold : Option Nat) (k : Nat)
    (seq : Nat) :
    ∀ {d : Delivery P N} {ns : List (Notice P)}, d.Tracking sends ns →
      (Delivery.scanLost now delay threshold k seq d).1.Tracking sends
        (ns ++ (Delivery.scanLost now delay threshold k seq d).2) := by
  induction k generalizing seq with
  | zero => intro d ns t; simpa [Delivery.scanLost] using t
  | succ k ih =>
    intro d ns t
    simp only [Delivery.scanLost]
    split
    · next sentAt p he =>
      split
      · have hlost := t.tell he (.lose p)
        simp only [Resolved.isOutcome, ite_true] at hlost
        have hrest := ih (seq + 1) (d := { d with
          sent := d.sent.set seq ⟨sentAt, .lost⟩, inFlight := d.inFlight - 1 }) hlost
        simpa [List.append_assoc] using hrest
      · simpa using t
    · exact ih _ t

theorem Tracking.detectLost (t : d.Tracking sends ns) (now : Timestamp) :
    (d.detectLost now).1.Tracking sends (ns ++ (d.detectLost now).2) := by
  unfold Delivery.detectLost
  split
  · simpa using t
  · exact (t.scanLost now _ _ _ _).advanceOldest

theorem Tracking.onNewest (t : d.Tracking sends ns) (now : Timestamp) (ack : Nat)
    (sentAt : Option Timestamp) (ackDelay : Option Span) :
    (d.onNewest now ack sentAt ackDelay).Tracking sends ns := by
  unfold Delivery.onNewest
  split
  · split <;> exact t
  · exact t

theorem Tracking.onAck (t : d.Tracking sends ns) (now : Timestamp) (ack : Nat)
    (ackDelay : Option Span) (bits : BitVec 32) :
    (d.onAck now ack ackDelay bits).1.Tracking sends (ns ++ (d.onAck now ack ackDelay bits).2) := by
  have hbits := Tracking.resolveBits ack bits 32 0 (t.resolve ack)
  have hnew := hbits.onNewest now ack (d.resolve ack).2.2 ackDelay
  simp only [Delivery.onAck, ← List.append_assoc]
  apply Tracking.detectLost
  split
  · exact hnew
  · exact hnew

theorem Tracking.onTimeout (t : d.Tracking sends ns) (now : Timestamp) :
    (d.onTimeout now).1.Tracking sends (ns ++ (d.onTimeout now).2.1) := by
  have hlost := t.detectLost now
  unfold Delivery.onTimeout
  simp only
  split
  · exact hlost
  · split
    · exact hlost
    · exact hlost

/-- What a send adds to the ack-eliciting sends. -/
def tracked (sequence : Nat) : Outgoing P → List (Nat × P)
  | .ackOnly => []
  | .eliciting record => [(sequence, record)]

theorem Tracking.onSent (t : d.Tracking sends ns) (now : Timestamp) {q : Nat}
    (outgoing : Outgoing P) (hq : ∀ l, d.largestSent = some l → l < q) :
    (d.onSent now q outgoing).1.Tracking (sends ++ tracked q outgoing)
      (ns ++ (d.onSent now q outgoing).2) := by
  cases outgoing with
  | ackOnly =>
    simp only [Delivery.onSent, tracked, List.append_nil]
    refine Tracking.advanceOldest ⟨t.nodup, ?_, t.quiet, t.held, t.gone, t.count⟩
    intro q' r' h
    obtain ⟨l, hl, hle⟩ := t.below q' r' h
    exact ⟨_, rfl, by simp only [hl, Option.elim]; omega⟩
  | eliciting record =>
    simp only [Delivery.onSent, tracked, SequenceBuffer.insert]
    split
    · next seq sentAt p hev =>
      -- The occupant is lost in place first, then the packet takes its slot.
      have hslot : ringSlot N seq = ringSlot N q := d.sent.home _ _ hev
      have hlost := t.tell (SequenceBuffer.get_of_slot hev) (.lose p)
      have hput := hlost.put (q := q) (r := record) now hq (by
        intro e he p' hp'
        rw [← hslot, SequenceBuffer.slots_set (SequenceBuffer.get_of_slot hev)] at he
        simp only [Option.some.injEq] at he
        subst he
        cases hp')
      rw [SequenceBuffer.put_set hslot (SequenceBuffer.get_of_slot hev)] at hput
      have hpos := t.pos (SequenceBuffer.get_of_slot hev)
      refine Tracking.advanceOldest ?_
      simp only [Resolved.isOutcome, ite_true] at hput
      simp only [Tracking]
      rw [show d.inFlight + 1 - 1 = d.inFlight - 1 + 1 by omega]
      exact hput
    · next hev =>
      rw [List.append_nil]
      refine Tracking.advanceOldest (t.put now hq ?_)
      rintro ⟨seq, sentAt, st⟩ he p hp
      cases hp
      exact hev _ _ _ he

end Delivery

/-! ## What the operations leave alone -/

namespace Delivery

/-- Only the ring and its count have changed. -/
def Marked (d d' : Delivery P N) : Prop := ∃ sent n, d' = { d with sent := sent, inFlight := n }

theorem Marked.refl (d : Delivery P N) : d.Marked d := ⟨d.sent, d.inFlight, rfl⟩

theorem Marked.trans {d₁ d₂ d₃ : Delivery P N} (h₁ : d₁.Marked d₂) (h₂ : d₂.Marked d₃) : d₁.Marked d₃ := by
  obtain ⟨_, _, rfl⟩ := h₁
  obtain ⟨sent, n, rfl⟩ := h₂
  exact ⟨sent, n, rfl⟩

theorem resolve_marked (d : Delivery P N) (q : Nat) : d.Marked (d.resolve q).1 := by
  unfold resolve
  split
  · exact .refl d
  · dsimp only
    split <;> exact ⟨_, _, rfl⟩

theorem resolveBits_marked (ack : Nat) (bits : BitVec 32) (k offset : Nat) (d : Delivery P N) :
    d.Marked (resolveBits ack bits k offset d).1 := by
  induction k generalizing offset d with
  | zero => exact .refl d
  | succ k ih =>
    rw [resolveBits]
    split
    · exact ih _ _
    · exact (resolve_marked d _).trans (ih _ _)

theorem scanLost_marked (now : Timestamp) (delay : Span) (threshold : Option Nat) (k seq : Nat) (d : Delivery P N) :
    d.Marked (scanLost now delay threshold k seq d).1 := by
  induction k generalizing seq d with
  | zero => exact .refl d
  | succ k ih =>
    rw [scanLost]
    split
    · dsimp only
      split
      · exact Marked.trans ⟨_, _, rfl⟩ (ih _ _)
      · exact .refl d
    · exact ih _ _

theorem detectLost_shape (d : Delivery P N) (now : Timestamp) : ∃ sent n oldest,
    (d.detectLost now).1 = { d with sent := sent, inFlight := n, oldestUnresolved := oldest } := by
  unfold detectLost
  split
  · exact ⟨d.sent, d.inFlight, d.oldestUnresolved, rfl⟩
  next a _ =>
    obtain ⟨sent, n, hmarked⟩ := scanLost_marked now d.lossDelay (Sequence.checkedSub a reorderThreshold)
      (a - d.oldestUnresolved) d.oldestUnresolved d
    dsimp only
    rw [hmarked]
    obtain ⟨oldest, heq⟩ := advanceOldest_shape { d with sent := sent, inFlight := n }
    exact ⟨sent, n, oldest, heq⟩

theorem detectLost_largestSent (d : Delivery P N) (now : Timestamp) :
    (d.detectLost now).1.largestSent = d.largestSent := by
  obtain ⟨sent, n, oldest, heq⟩ := d.detectLost_shape now
  rw [heq]

theorem onAck_largestSent (d : Delivery P N) (now : Timestamp) (ack : Nat) (ackDelay : Option Span)
    (bits : BitVec 32) : (d.onAck now ack ackDelay bits).1.largestSent = d.largestSent := by
  obtain ⟨sent, n, h⟩ := (resolve_marked d ack).trans (resolveBits_marked ack bits 32 0 (d.resolve ack).1)
  have hnewest : ((resolveBits ack bits 32 0 (d.resolve ack).1).1.onNewest now ack (d.resolve ack).2.2
      ackDelay).largestSent = d.largestSent := by
    rw [h]
    unfold onNewest
    split
    · split <;> rfl
    · rfl
  simp only [onAck, detectLost_largestSent]
  split <;> exact hnewest

theorem onTimeout_largestSent (d : Delivery P N) (now : Timestamp) :
    (d.onTimeout now).1.largestSent = d.largestSent := by
  rw [← detectLost_largestSent d now]
  unfold onTimeout
  dsimp only
  split
  · rfl
  · split <;> rfl

theorem onSent_largestSent (d : Delivery P N) (now : Timestamp) (q : Nat) (outgoing : Outgoing P) :
    (d.onSent now q outgoing).1.largestSent = some (d.largestSent.elim q fun l => max l q) := by
  unfold onSent
  cases outgoing with
  | ackOnly => exact advanceOldest_largestSent _
  | eliciting record =>
    dsimp only
    split <;> exact advanceOldest_largestSent _

end Delivery

/-! ## Every run -/

/-- A ledger with what it was given and what it has told: the ack-eliciting
sends and the notices, oldest first. -/
structure Ledger (P : Type) (N : Nat) [NeZero N] where
  delivery : Delivery P N
  sends : List (Nat × P)
  notices : List (Notice P)

inductive LedgerOp (P : Type)
  | onSent (now : Timestamp) (sequence : Nat) (outgoing : Outgoing P)
  | onAck (now : Timestamp) (ack : Nat) (ackDelay : Option Span) (bits : BitVec 32)
  | onTimeout (now : Timestamp)
  | onPathChange

/-- Sequences sent strictly increase, and nothing is acknowledged past the
largest sent. Nothing is asked of the times, the delays or the bits. -/
def LedgerOp.Admissible (s : Ledger P N) : LedgerOp P → Prop
  | .onSent _ sequence _ => 0 < sequence ∧ ∀ l, s.delivery.largestSent = some l → l < sequence
  | .onAck _ ack _ _ => 0 < ack ∧ ∃ l, s.delivery.largestSent = some l ∧ ack ≤ l
  | .onTimeout _ | .onPathChange => True

def Ledger.apply (s : Ledger P N) : LedgerOp P → Ledger P N
  | .onSent now sequence outgoing =>
    let r := s.delivery.onSent now sequence outgoing
    ⟨r.1, s.sends ++ Delivery.tracked sequence outgoing, s.notices ++ r.2⟩
  | .onAck now ack ackDelay bits =>
    let r := s.delivery.onAck now ack ackDelay bits
    ⟨r.1, s.sends, s.notices ++ r.2⟩
  | .onTimeout now =>
    let r := s.delivery.onTimeout now
    ⟨r.1, s.sends, s.notices ++ r.2.1⟩
  | .onPathChange => { s with delivery := s.delivery.onPathChange }

def ledgerSys (P : Type) (N : Nat) [NeZero N] : Lts.Sys (Ledger P N) (LedgerOp P) where
  start s := ∃ now delay, s = ⟨Delivery.new now delay, [], []⟩
  step s op s' := op.Admissible s ∧ s' = s.apply op

theorem Ledger.start_tracking (now : Timestamp) (delay : MaxAckDelay) :
    (Delivery.new now delay : Delivery P N).Tracking [] [] := by
  refine ⟨?_, ?_, ?_, ?_, ?_, ?_⟩ <;> simp [Delivery.new, outcomes]

theorem Ledger.apply_tracking {s : Ledger P N} {op : LedgerOp P} (hop : op.Admissible s)
    (t : s.delivery.Tracking s.sends s.notices) :
    (s.apply op).delivery.Tracking (s.apply op).sends (s.apply op).notices := by
  cases op with
  | onSent now sequence outgoing => exact t.onSent now outgoing hop.2
  | onAck now ack ackDelay bits => exact t.onAck now ack ackDelay bits
  | onTimeout now => exact t.onTimeout now
  | onPathChange => exact t

theorem Ledger.reachable_tracking {s : Ledger P N} (h : Lts.Reachable (ledgerSys P N) s) :
    s.delivery.Tracking s.sends s.notices := by
  refine Lts.Reach.invariant (P := fun s => s.delivery.Tracking s.sends s.notices) ?_ ?_ h
  · rintro _ ⟨now, delay, rfl⟩
    exact Ledger.start_tracking now delay
  · rintro s op _ - t - ⟨hop, rfl⟩
    exact Ledger.apply_tracking hop t

/-- Every record is handed back at most once and none is dropped. -/
structure ExactlyOnce (s : Ledger P N) : Prop where
  /-- A packet has at most one `Acked` or `Lost` notice. -/
  once : ∀ q, ((history s.notices q).filter (·.isOutcome)).length ≤ 1
  /-- What it hands back is the record stored when it was sent. -/
  own : ∀ m ∈ s.notices, ∀ r, m.what = .acked r ∨ m.what = .lost r → (m.sequence, r) ∈ s.sends
  /-- A record not yet handed back is in flight under its own sequence. -/
  held : ∀ q r, (q, r) ∈ s.sends → (∀ m ∈ s.notices, m.sequence = q → ¬ m.what.isOutcome) →
    ∃ sentAt, s.delivery.sent.get q = some ⟨sentAt, .inFlight r⟩
  spuriousOnce : ∀ q, ((history s.notices q).filter fun w => !w.isOutcome).length ≤ 1
  spuriousLate : ∀ before m after, s.notices = before ++ m :: after → m.what = .spurious →
    ∃ m' ∈ before, m'.sequence = m.sequence ∧ ∃ r, m'.what = .lost r
  /-- The count is exact, and within the ring: it neither underflows nor
  passes `N`. -/
  inFlight : s.delivery.inFlight + outcomes s.notices = s.sends.length
  inFlight_le : s.delivery.inFlight ≤ N

/-- **The ledger hands every record back exactly once**, in every run. -/
theorem ledger_exactly_once {s : Ledger P N} (h : Lts.Reachable (ledgerSys P N) s) : ExactlyOnce s := by
  have t := Ledger.reachable_tracking h
  refine ⟨t.outcomes_le, ?_, ?_, ?_, ?_, t.count, t.le_slots⟩
  · intro m hm r hr
    have hin := mem_history hm
    rcases t.cases_history m.sequence with hnil | ⟨r', hmem, hstory⟩
    · rw [hnil] at hin
      cases hin
    · have : r = r' := by
        rcases hr with hr | hr <;> rw [hr] at hin <;> rcases hstory with hs | hs | hs <;>
          simp [hs] at hin <;> exact hin
      rw [this]
      exact hmem
  · intro q r hmem hnone
    have hnil : history s.notices q = [] := by
      rcases t.story hmem with hnil | hstory
      · exact hnil
      · exfalso
        have hpos : 0 < ((history s.notices q).filter (·.isOutcome)).length := by
          rw [hstory.outcomes_eq]; exact Nat.one_pos
        obtain ⟨w, hw⟩ := List.exists_mem_of_length_pos hpos
        obtain ⟨hw, ho⟩ := List.mem_filter.1 hw
        obtain ⟨m, hm, rfl⟩ := List.mem_map.1 hw
        obtain ⟨hm, hq⟩ := List.mem_filter.1 hm
        exact hnone m hm (by simpa using hq) ho
    cases hget : s.delivery.sent.get q with
    | none =>
      rcases t.gone q r hmem hget with h | h | h <;> simp [hnil] at h
    | some e =>
      obtain ⟨r', hr', ht⟩ := t.held q e hget
      obtain ⟨sentAt, st⟩ := e
      rw [hnil] at ht
      cases st with
      | inFlight p => exact ⟨sentAt, by rw [ht.1, t.same hmem hr']⟩
      | acked => simp [Told] at ht
      | lost => simp [Told] at ht
  · intro q
    rcases t.cases_history q with h | ⟨r, -, h | h | h⟩ <;> simp [h, Resolved.isOutcome]
  · intro before m after hns hm
    have hhist : history s.notices m.sequence =
        history before m.sequence ++ Resolved.spurious :: history after m.sequence := by
      rw [hns, show m :: after = [m] ++ after from rfl, history_append, history_append, history_one]
      simp [hm]
    rcases t.cases_history m.sequence with h | ⟨r, -, h | h | h⟩
    · rw [h] at hhist
      simp at hhist
    all_goals rw [h] at hhist
    · have := congrArg List.length hhist
      simp only [List.length_cons, List.length_append, List.length_nil] at this
      cases hb : history before m.sequence <;> simp_all
    · cases hb : history before m.sequence <;> simp_all
    · cases hb : history before m.sequence with
      | nil => simp [hb] at hhist
      | cons w ws =>
        simp only [hb, List.cons_append, List.cons.injEq] at hhist
        have hw : w ∈ history before m.sequence := by simp [hb]
        obtain ⟨m', hm', hwhat⟩ := List.mem_map.1 hw
        obtain ⟨hm', hq⟩ := List.mem_filter.1 hm'
        exact ⟨m', hm', by simpa using hq, r, by rw [hwhat, hhist.1]⟩

/-- Two packets in a ring of two slots; the third takes the first one's slot,
and the acknowledgement of the second finds it. -/
def Ledger.sample : Ledger Nat 2 :=
  (((⟨Delivery.new .zero .default, [], []⟩ : Ledger Nat 2).apply (.onSent .zero 1 (.eliciting 10))).apply
    (.onSent .zero 2 (.eliciting 20))).apply (.onSent .zero 3 (.eliciting 30)) |>.apply
      (.onAck .zero 2 none 0)

theorem Ledger.sample_exactlyOnce :
    Ledger.sample.notices = [⟨1, .lost 10⟩, ⟨2, .acked 20⟩] ∧ ExactlyOnce Ledger.sample := by
  refine ⟨by decide, ledger_exactly_once ?_⟩
  refine .step (.step (.step (.step (.start ⟨.zero, .default, rfl⟩) trivial ⟨?_, rfl⟩) trivial ⟨?_, rfl⟩)
    trivial ⟨?_, rfl⟩) trivial ⟨?_, rfl⟩
  · exact ⟨by decide, fun l h => by cases h⟩
  · exact ⟨by decide, fun l h => by cases h; decide⟩
  · exact ⟨by decide, fun l h => by cases h; decide⟩
  · exact ⟨by decide, 3, rfl, by decide⟩

end HexNet.Ack
