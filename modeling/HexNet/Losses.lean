/-
Loss detection and its deadline (`ack.rs`).

The scan for losses starts at `oldest_unresolved` and stops at the first
packet in flight that fails both rules. `Orderly` is what makes that enough:
no packet before `oldest_unresolved` is in flight, and a later packet was sent
no earlier. `Settled` is what each call leaves behind: `oldest_unresolved` is
itself in flight unless nothing is, and no packet in flight is far enough
behind the largest acknowledged to fail the count.

`loss_rule` says the packets reported lost are those the plain rule says, and
`deadline_exact` that `next_timeout` is when `on_timeout` has work.
-/
import HexNet.Ledger

namespace HexNet.Ack

variable {P : Type} {N : Nat} [NeZero N]

/-- The packets a call reported lost, with their records. -/
def losses (ns : List (Notice P)) : List (Nat × P) :=
  ns.filterMap fun n =>
    match n.what with
    | .lost record => some (n.sequence, record)
    | _ => none

@[simp] theorem losses_nil : losses ([] : List (Notice P)) = [] := rfl

theorem losses_append (ns ms : List (Notice P)) : losses (ns ++ ms) = losses ns ++ losses ms :=
  List.filterMap_append

namespace Delivery

/-- Packet `q` is in flight since `sentAt`, with `record`. -/
def Flying (d : Delivery P N) (q : Nat) (sentAt : Timestamp) (record : P) : Prop :=
  d.sent.get q = some ⟨sentAt, .inFlight record⟩

/-- A later packet was sent no earlier. -/
def SentInOrder (d : Delivery P N) : Prop :=
  ∀ q q' t t' r r', d.Flying q t r → d.Flying q' t' r' → q ≤ q' → t ≤ t'

/-- The plain rule: a packet in flight before the largest acknowledged one, at
least three behind it or outstanding for the loss delay. -/
def Overdue (d : Delivery P N) (now : Timestamp) (q : Nat) (sentAt : Timestamp) (record : P) : Prop :=
  d.Flying q sentAt record ∧ ∃ largest, d.largestAcked = some largest ∧ q < largest ∧
    (q + reorderThreshold ≤ largest ∨ d.lossDelay ≤ now.since sentAt)

variable {d : Delivery P N}

theorem Flying.unique {q : Nat} {t t' : Timestamp} {r r' : P} (h : d.Flying q t r) (h' : d.Flying q t' r') :
    t = t' ∧ r = r' := by
  have heq := h.symm.trans h'
  cases heq
  exact ⟨rfl, rfl⟩

theorem oldestInFlight_eq_some {e : Sent P} :
    d.oldestInFlight = some e ↔ ∃ t r, e = ⟨t, .inFlight r⟩ ∧ d.Flying d.oldestUnresolved t r := by
  unfold oldestInFlight Flying
  rw [Option.filter_eq_some_iff]
  obtain ⟨t, st⟩ := e
  cases st with
  | inFlight r => exact ⟨fun h => ⟨t, r, rfl, h.1⟩, by rintro ⟨t, r, ⟨⟩, h⟩; exact ⟨h, rfl⟩⟩
  | acked | lost => exact ⟨fun h => Bool.noConfusion h.2, by rintro ⟨t, r, ⟨⟩, _⟩⟩

theorem oldestInFlight_eq_none :
    d.oldestInFlight = none ↔ ∀ t r, ¬ d.Flying d.oldestUnresolved t r := by
  cases h : d.oldestInFlight with
  | none =>
    refine ⟨fun _ t r hf => ?_, fun _ => rfl⟩
    rw [oldestInFlight_eq_some.2 ⟨t, r, rfl, hf⟩] at h
    cases h
  | some e =>
    obtain ⟨t, r, -, hf⟩ := oldestInFlight_eq_some.1 h
    exact ⟨fun h => (nomatch h), fun hnone => absurd hf (hnone t r)⟩

/-! ## The scan -/

/-- The two rules the scan judges a packet by. -/
def Due (now : Timestamp) (delay : Span) (threshold : Option Nat) (q : Nat) (sentAt : Timestamp) : Prop :=
  (threshold.any (fun t => q ≤ t) || decide (delay ≤ now.since sentAt)) = true

section

variable {now : Timestamp} {delay : Span} {threshold : Option Nat}

theorem due_iff {q : Nat} {t : Timestamp} :
    Due now delay threshold q t ↔ (∃ th, threshold = some th ∧ q ≤ th) ∨ delay ≤ now.since t := by
  unfold Due
  rw [Bool.or_eq_true, decide_eq_true_iff, Option.any_eq_true]
  simp only [decide_eq_true_iff]

/-- Both rules are monotone: what an earlier packet passes, a later one does. -/
theorem Due.earlier {q q' : Nat} {t t' : Timestamp} (h : Due now delay threshold q' t') (hq : q ≤ q') (ht : t ≤ t') :
    Due now delay threshold q t := by
  rw [due_iff] at h ⊢
  rcases h with ⟨th, hth, hle⟩ | htime
  · exact .inl ⟨th, hth, Nat.le_trans hq hle⟩
  · refine .inr ?_
    rw [Span.le_iff, Timestamp.since_nanos] at htime ⊢
    rw [Timestamp.le_iff] at ht
    omega

/-- A packet resolved is no longer in flight. -/
theorem flying_set {s : Nat} {e : Sent P} (h : d.sent.get s = some e) (sentAt : Timestamp) {st : State P}
    (hst : ∀ p, st ≠ .inFlight p) (n q : Nat) (t : Timestamp) (r : P) :
    Flying { d with sent := d.sent.set s ⟨sentAt, st⟩, inFlight := n } q t r ↔ d.Flying q t r ∧ q ≠ s := by
  unfold Flying
  rw [SequenceBuffer.get_set h]
  split
  next hq =>
    refine ⟨fun heq => ?_, fun hne => absurd hq hne.2⟩
    cases heq
    exact absurd rfl (hst r)
  next hq => exact ⟨fun heq => ⟨heq, hq⟩, fun hne => hne.1⟩

/-- What a scan of `n` sequences from `seq` reports, and what it leaves in
flight. -/
theorem scanLost_spec (now : Timestamp) (delay : Span) (threshold : Option Nat) (n seq : Nat) {d : Delivery P N}
    (hord : d.SentInOrder) :
    let scanned := scanLost now delay threshold n seq d
    (∀ q t r, scanned.1.Flying q t r ↔
      d.Flying q t r ∧ ¬ (seq ≤ q ∧ q < seq + n ∧ Due now delay threshold q t)) ∧
    (∀ q r, (q, r) ∈ losses scanned.2 ↔
      ∃ t, d.Flying q t r ∧ seq ≤ q ∧ q < seq + n ∧ Due now delay threshold q t) ∧
    ((losses scanned.2).map Prod.fst).Nodup := by
  induction n generalizing seq d with
  | zero =>
    refine ⟨fun q t r => ⟨fun h => ⟨h, by omega⟩, fun h => h.1⟩, fun q r => ⟨fun h => absurd h List.not_mem_nil, ?_⟩,
      List.nodup_nil⟩
    rintro ⟨t, -, hle, hlt, -⟩
    omega
  | succ n ih =>
    dsimp only
    rw [scanLost]
    split
    next sentAt payload hseq =>
      have hflying : d.Flying seq sentAt payload := hseq
      dsimp only
      split
      next hdue =>
        have hset := flying_set hseq sentAt (fun p (h : State.lost = .inFlight p) => by cases h) (d.inFlight - 1)
        obtain ⟨hleft, htold, hnodup⟩ := ih (seq + 1) (d := { d with
          sent := d.sent.set seq ⟨sentAt, .lost⟩, inFlight := d.inFlight - 1 })
          (fun q q' t t' r r' h h' => hord q q' t t' r r' ((hset ..).1 h).1 ((hset ..).1 h').1)
        have hself {q : Nat} {t : Timestamp} {r : P} (h : d.Flying q t r) (hq : q = seq) : t = sentAt ∧ r = payload := by
          subst hq
          exact h.unique hflying
        refine ⟨fun q t r => ?_, fun q r => ?_, ?_⟩
        · rw [hleft, hset]
          constructor
          · rintro ⟨⟨hf, hne⟩, hnot⟩
            exact ⟨hf, fun h => hnot ⟨by omega, by omega, h.2.2⟩⟩
          · rintro ⟨hf, hnot⟩
            refine ⟨⟨hf, fun hq => hnot ⟨by omega, by omega, ?_⟩⟩, fun h => hnot ⟨by omega, by omega, h.2.2⟩⟩
            rw [(hself hf hq).1, hq]
            exact hdue
        · show (q, r) ∈ (seq, payload) :: losses _ ↔ _
          rw [List.mem_cons, htold]
          constructor
          · rintro (heq | ⟨t, hf, hle, hlt, hd⟩)
            · cases heq
              exact ⟨sentAt, hflying, Nat.le_refl _, by omega, hdue⟩
            · exact ⟨t, ((hset ..).1 hf).1, by omega, by omega, hd⟩
          · rintro ⟨t, hf, hle, hlt, hd⟩
            by_cases hq : q = seq
            · exact .inl (by rw [hq, (hself hf hq).2])
            · exact .inr ⟨t, (hset ..).2 ⟨hf, hq⟩, by omega, by omega, hd⟩
        · show ((seq, payload) :: losses _).map Prod.fst |>.Nodup
          rw [List.map_cons, List.nodup_cons]
          refine ⟨fun hmem => ?_, hnodup⟩
          obtain ⟨⟨q, r⟩, hin, hq⟩ := List.mem_map.1 hmem
          obtain ⟨t, -, hle, -⟩ := (htold q r).1 hin
          dsimp only at hq
          omega
      next hdue =>
        -- The first packet that fails both rules: so does every later one.
        have hnone {q : Nat} {t : Timestamp} {r : P} (hf : d.Flying q t r) (hle : seq ≤ q) :
            ¬ Due now delay threshold q t :=
          fun hd => hdue (hd.earlier hle (hord _ _ _ _ _ _ hflying hf hle))
        refine ⟨fun q t r => ⟨fun hf => ⟨hf, fun h => hnone hf h.1 h.2.2⟩, fun h => h.1⟩,
          fun q r => ⟨fun h => absurd h List.not_mem_nil, ?_⟩, List.nodup_nil⟩
        rintro ⟨t, hf, hle, -, hd⟩
        exact absurd hd (hnone hf hle)
    next hseq =>
      have hne {q : Nat} {t : Timestamp} {r : P} (hf : d.Flying q t r) : q ≠ seq := fun hq => hseq t r (hq ▸ hf)
      obtain ⟨hleft, htold, hnodup⟩ := ih (seq + 1) hord
      refine ⟨fun q t r => ?_, fun q r => ?_, hnodup⟩
      · rw [hleft]
        constructor
        · rintro ⟨hf, hnot⟩
          have hq := hne hf
          exact ⟨hf, fun h => hnot ⟨by omega, by omega, h.2.2⟩⟩
        · rintro ⟨hf, hnot⟩
          exact ⟨hf, fun h => hnot ⟨by omega, by omega, h.2.2⟩⟩
      · rw [htold]
        constructor
        · rintro ⟨t, hf, hle, hlt, hd⟩
          exact ⟨t, hf, by omega, by omega, hd⟩
        · rintro ⟨t, hf, hle, hlt, hd⟩
          have hq := hne hf
          exact ⟨t, hf, by omega, by omega, hd⟩

/-- A scan that finds nothing due changes nothing. -/
theorem scanLost_quiet (n seq : Nat) {d : Delivery P N}
    (hnone : ∀ q t r, d.Flying q t r → seq ≤ q → q < seq + n → ¬ Due now delay threshold q t) :
    scanLost now delay threshold n seq d = (d, []) := by
  induction n generalizing seq with
  | zero => rfl
  | succ n ih =>
    rw [scanLost]
    split
    next sentAt payload hseq => exact if_neg (hnone seq sentAt payload hseq (Nat.le_refl _) (by omega))
    next hseq => exact ih (seq + 1) fun q t r hf hle hlt => hnone q t r hf (by omega) (by omega)

end

/-! ## The oldest packet in flight -/

theorem advanceLoop_spec (n seq : Nat) :
    seq ≤ d.advanceLoop n seq ∧ d.advanceLoop n seq ≤ seq + n ∧
      (∀ q t r, d.Flying q t r → seq ≤ q → d.advanceLoop n seq ≤ q) ∧
      ((∃ t r, d.Flying (d.advanceLoop n seq) t r) ∨ d.advanceLoop n seq = seq + n) := by
  induction n generalizing seq with
  | zero => exact ⟨Nat.le_refl _, Nat.le_refl _, fun _ _ _ _ h => h, .inr rfl⟩
  | succ n ih =>
    rw [advanceLoop]
    split
    next hnone =>
      have hnot := oldestInFlight_eq_none.1 (Option.isNone_iff_eq_none.1 hnone)
      obtain ⟨hle, hlt, hfirst, hfront⟩ := ih (seq + 1)
      refine ⟨by omega, by omega, fun q t r hf hq => hfirst q t r hf ?_, hfront.imp id fun h => by omega⟩
      have hne : q ≠ seq := by
        rintro rfl
        exact hnot t r hf
      omega
    next hsome =>
      obtain ⟨e, he⟩ := Option.ne_none_iff_exists'.1 fun h => hsome (Option.isNone_iff_eq_none.2 h)
      obtain ⟨t, r, -, hf⟩ := oldestInFlight_eq_some.1 he
      exact ⟨Nat.le_refl _, by omega, fun _ _ _ _ h => h, .inl ⟨t, r, hf⟩⟩

/-- `oldest_unresolved` is in flight itself, or past everything sent. -/
def AtFront (d : Delivery P N) : Prop :=
  (∃ t r, d.Flying d.oldestUnresolved t r) ∨ ∀ largest, d.largestSent = some largest → largest < d.oldestUnresolved

theorem advanceOldest_spec (d : Delivery P N) : ∃ oldest, d.advanceOldest = { d with oldestUnresolved := oldest } ∧
    d.oldestUnresolved ≤ oldest ∧
    (∀ q t r, d.Flying q t r → d.oldestUnresolved ≤ q → oldest ≤ q) ∧
    (∀ q, (∀ largest, d.largestSent = some largest → largest < q) → d.oldestUnresolved ≤ q → oldest ≤ q) ∧
    d.advanceOldest.AtFront := by
  unfold advanceOldest
  split
  next hnone =>
    exact ⟨d.oldestUnresolved, rfl, Nat.le_refl _, fun _ _ _ _ h => h, fun _ _ h => h,
      .inr fun largest h => by rw [hnone] at h; cases h⟩
  next largest hlargest =>
    obtain ⟨hle, hlt, hfirst, hfront⟩ := d.advanceLoop_spec (largest + 1 - d.oldestUnresolved) d.oldestUnresolved
    refine ⟨_, rfl, hle, hfirst, fun q hq h => ?_, hfront.imp id fun heq largest' h => ?_⟩
    · have := hq largest hlargest
      omega
    · obtain rfl := Option.some.inj (hlargest.symm.trans h)
      show largest < d.advanceLoop _ _
      omega

/-- Nothing to advance past. -/
theorem AtFront.advanceOldest (h : d.AtFront) : d.advanceOldest = d := by
  unfold Delivery.advanceOldest
  split
  · rfl
  next largest hlargest =>
    have hstay : d.advanceLoop (largest + 1 - d.oldestUnresolved) d.oldestUnresolved = d.oldestUnresolved := by
      rcases h with ⟨t, r, hf⟩ | hpast
      · have := (d.advanceLoop_spec (largest + 1 - d.oldestUnresolved) d.oldestUnresolved)
        exact Nat.le_antisymm (this.2.2.1 _ t r hf (Nat.le_refl _)) this.1
      · have := hpast largest hlargest
        rw [show largest + 1 - d.oldestUnresolved = 0 by omega]
        rfl
    rw [hstay]

/-! ## What every call keeps -/

/-- Why the scan may start and stop where it does. -/
structure Orderly (d : Delivery P N) (clock : Timestamp) : Prop where
  inOrder : d.SentInOrder
  past : ∀ {q t r}, d.Flying q t r → t ≤ clock
  sent : ∀ {q t r}, d.Flying q t r → ∃ largest, d.largestSent = some largest ∧ q ≤ largest
  acked : ∀ {a}, d.largestAcked = some a → ∃ largest, d.largestSent = some largest ∧ a ≤ largest
  positive : 0 < d.oldestUnresolved
  oldest : ∀ {q t r}, d.Flying q t r → d.oldestUnresolved ≤ q
  /-- The next packet sent is not behind it. -/
  next : ∀ q, 0 < q → (∀ largest, d.largestSent = some largest → largest < q) → d.oldestUnresolved ≤ q

/-- What every call leaves behind. -/
structure Settled (d : Delivery P N) : Prop where
  front : d.AtFront
  swept : ∀ {q t r a}, d.Flying q t r → d.largestAcked = some a → a < q + reorderThreshold

theorem new_orderly (now clock : Timestamp) (delay : MaxAckDelay) :
    (Delivery.new now delay : Delivery P N).Orderly clock ∧ (Delivery.new now delay : Delivery P N).Settled := by
  have hnone {q t r} : ¬ (Delivery.new now delay : Delivery P N).Flying q t r := fun hf => (nomatch hf)
  exact ⟨⟨fun _ _ _ _ _ _ hf => absurd hf hnone, fun hf => absurd hf hnone, fun hf => absurd hf hnone,
    fun h => (nomatch h), Nat.one_pos, fun hf => absurd hf hnone, fun q hq _ => hq⟩,
    .inr fun _ h => (nomatch h), fun hf => absurd hf hnone⟩

variable {clock now : Timestamp}

/-- Fewer packets in flight, and nothing else but the count changed. -/
theorem Orderly.fewer {d' : Delivery P N} (h : d.Orderly clock) (hm : d.Marked d')
    (hf : ∀ q t r, d'.Flying q t r → d.Flying q t r) : d'.Orderly clock := by
  obtain ⟨sent, n, rfl⟩ := hm
  exact ⟨fun q q' t t' r r' h₁ h₂ => h.inOrder q q' t t' r r' (hf _ _ _ h₁) (hf _ _ _ h₂), fun h₁ => h.past (hf _ _ _ h₁),
    fun h₁ => h.sent (hf _ _ _ h₁), h.acked, h.positive, fun h₁ => h.oldest (hf _ _ _ h₁), h.next⟩

theorem Orderly.advanceOldest (h : d.Orderly clock) : d.advanceOldest.Orderly clock := by
  obtain ⟨oldest, heq, hle, hflying, hnext, -⟩ := d.advanceOldest_spec
  rw [heq]
  exact ⟨h.inOrder, h.past, h.sent, h.acked, Nat.lt_of_lt_of_le h.positive hle,
    fun hf => hflying _ _ _ hf (h.oldest hf), fun q hq hlt => hnext q hlt (h.next q hq hlt)⟩

theorem advanceOldest_flying {q : Nat} {t : Timestamp} {r : P} : d.advanceOldest.Flying q t r ↔ d.Flying q t r := by
  unfold Flying
  rw [advanceOldest_sent]

theorem advanceOldest_largestAcked : d.advanceOldest.largestAcked = d.largestAcked := by
  obtain ⟨oldest, heq⟩ := d.advanceOldest_shape
  rw [heq]

theorem Orderly.later (h : d.Orderly clock) (hle : clock ≤ now) : d.Orderly now :=
  ⟨h.inOrder, fun hf => Nat.le_trans (h.past hf) hle, h.sent, h.acked, h.positive, h.oldest, h.next⟩

/-- Neither is about the estimate or the backoff. -/
theorem Orderly.retimed (h : d.Orderly clock) (rtt : Rtt) (probes : ProbeBackoff) :
    Orderly { d with rtt, probes } clock :=
  ⟨h.inOrder, h.past, h.sent, h.acked, h.positive, h.oldest, h.next⟩

theorem Settled.retimed (h : d.Settled) (rtt : Rtt) (probes : ProbeBackoff) : Settled { d with rtt, probes } :=
  ⟨h.front, h.swept⟩

/-! ### The scan, against the rule -/

/-- The rules the scan applies are the plain rule's. -/
theorem Orderly.overdue_iff (h : d.Orderly clock) {a : Nat} (ha : d.largestAcked = some a) {q : Nat} {t : Timestamp}
    {r : P} : d.Overdue now q t r ↔ d.Flying q t r ∧ d.oldestUnresolved ≤ q ∧
      q < d.oldestUnresolved + (a - d.oldestUnresolved) ∧
        Due now d.lossDelay (Sequence.checkedSub a reorderThreshold) q t := by
  have hcount (hpos : 0 < q) : (∃ th, Sequence.checkedSub a reorderThreshold = some th ∧ q ≤ th) ↔
      q + reorderThreshold ≤ a := by
    unfold Sequence.checkedSub Sequence.ofCounter
    constructor
    · rintro ⟨th, hth, hle⟩
      split at hth
      · cases hth
      · have := Option.some.inj hth
        omega
    · intro hle
      exact ⟨a - reorderThreshold, if_neg (by omega), by omega⟩
  rw [due_iff]
  constructor
  · rintro ⟨hf, largest, hlargest, hlt, hrule⟩
    obtain rfl := Option.some.inj (ha.symm.trans hlargest)
    have hle := h.oldest hf
    have hpos := h.positive
    exact ⟨hf, hle, by omega, hrule.imp (hcount (by omega)).2 id⟩
  · rintro ⟨hf, hle, hlt, hrule⟩
    have hpos := h.positive
    exact ⟨hf, a, ha, by omega, hrule.imp (hcount (by omega)).1 id⟩

/-- What detection reports, and what it leaves in flight. -/
theorem Orderly.detectLost (h : d.Orderly clock) (now : Timestamp) :
    (∀ q r, (q, r) ∈ losses (d.detectLost now).2 ↔ ∃ t, d.Overdue now q t r) ∧
    ((losses (d.detectLost now).2).map Prod.fst).Nodup ∧
    (∀ q t r, (d.detectLost now).1.Flying q t r ↔ d.Flying q t r ∧ ¬ d.Overdue now q t r) ∧
    (d.detectLost now).1.Orderly clock := by
  unfold Delivery.detectLost
  split
  next hnone =>
    have hnot {q t r} : ¬ d.Overdue now q t r := by
      rintro ⟨-, a, ha, -⟩
      rw [hnone] at ha
      cases ha
    exact ⟨fun q r => ⟨fun h => (nomatch h), fun ⟨t, ht⟩ => absurd ht hnot⟩, List.nodup_nil,
      fun q t r => ⟨fun hf => ⟨hf, hnot⟩, fun hf => hf.1⟩, h⟩
  next a ha =>
    obtain ⟨hleft, htold, hnodup⟩ := scanLost_spec now d.lossDelay
      (Sequence.checkedSub a reorderThreshold) (a - d.oldestUnresolved) d.oldestUnresolved h.inOrder
    have hmarked := scanLost_marked now d.lossDelay (Sequence.checkedSub a reorderThreshold)
      (a - d.oldestUnresolved) d.oldestUnresolved d
    refine ⟨fun q r => ?_, hnodup, fun q t r => ?_, ?_⟩
    · rw [htold]
      exact exists_congr fun t => (h.overdue_iff ha).symm
    · rw [advanceOldest_flying, hleft, h.overdue_iff ha]
      exact and_congr_right fun hf => not_congr (and_iff_right hf).symm
    · exact (h.fewer hmarked fun q t r hf => ((hleft q t r).1 hf).1).advanceOldest

theorem detectLost_largestAcked (d : Delivery P N) (now : Timestamp) :
    (d.detectLost now).1.largestAcked = d.largestAcked := by
  obtain ⟨sent, n, oldest, heq⟩ := d.detectLost_shape now
  rw [heq]

/-- Detection settles the ledger, once anything was acknowledged. -/
theorem Orderly.detectLost_settled (h : d.Orderly clock) (hs : d.largestAcked = none → d.Settled) (now : Timestamp) :
    (d.detectLost now).1.Settled := by
  obtain ⟨-, -, hleft, -⟩ := h.detectLost now
  cases ha : d.largestAcked with
  | none =>
    unfold Delivery.detectLost
    rw [ha]
    exact hs ha
  | some a =>
    refine ⟨?_, fun {q t r b} hf hb => ?_⟩
    · unfold Delivery.detectLost
      rw [ha]
      obtain ⟨_, _, _, _, _, hfront⟩ := advanceOldest_spec (scanLost now d.lossDelay
        (Sequence.checkedSub a reorderThreshold) (a - d.oldestUnresolved) d.oldestUnresolved d).1
      exact hfront
    · rw [detectLost_largestAcked] at hb
      obtain ⟨hf, hnot⟩ := (hleft q t r).1 hf
      refine Nat.lt_of_not_le fun hle => hnot ⟨hf, b, hb, ?_, .inl hle⟩
      have : 0 < reorderThreshold := by decide
      omega

/-! ### Acknowledgements -/

theorem resolve_flying (d : Delivery P N) (s q : Nat) (t : Timestamp) (r : P) :
    (d.resolve s).1.Flying q t r ↔ d.Flying q t r ∧ q ≠ s := by
  unfold Delivery.resolve
  split
  next hnone =>
    refine ⟨fun hf => ⟨hf, ?_⟩, fun hf => hf.1⟩
    rintro rfl
    rw [Flying, hnone] at hf
    cases hf
  next e he =>
    have hset := flying_set he e.sentAt (fun p (h : State.acked = .inFlight p) => by cases h)
    dsimp only
    split <;> exact hset _ q t r

theorem losses_resolve (d : Delivery P N) (s : Nat) : losses (d.resolve s).2.1 = [] := by
  unfold Delivery.resolve
  split
  · rfl
  · dsimp only
    split <;> rfl

/-- The packets an acknowledgement with its history confirms. -/
def Names (ack : Nat) (bits : BitVec 32) (q : Nat) : Prop :=
  q = ack ∨ ∃ i < 32, bits.getLsbD i = true ∧ Sequence.checkedSub ack (i + 1) = some q

theorem resolveBits_flying (ack : Nat) (bits : BitVec 32) (n offset : Nat) (d : Delivery P N) (q : Nat)
    (t : Timestamp) (r : P) : (resolveBits ack bits n offset d).1.Flying q t r ↔ d.Flying q t r ∧
      ¬ ∃ i, offset ≤ i ∧ i < offset + n ∧ bits.getLsbD i = true ∧ Sequence.checkedSub ack (i + 1) = some q := by
  induction n generalizing offset d with
  | zero => exact ⟨fun hf => ⟨hf, fun ⟨i, hle, hlt, _⟩ => by omega⟩, fun hf => hf.1⟩
  | succ n ih =>
    have hsplit : (∃ i, offset ≤ i ∧ i < offset + (n + 1) ∧ bits.getLsbD i = true ∧
        Sequence.checkedSub ack (i + 1) = some q) ↔
      (bits.getLsbD offset = true ∧ Sequence.checkedSub ack (offset + 1) = some q) ∨
        ∃ i, offset + 1 ≤ i ∧ i < offset + 1 + n ∧ bits.getLsbD i = true ∧
          Sequence.checkedSub ack (i + 1) = some q := by
      constructor
      · rintro ⟨i, hle, hlt, hbit, hq⟩
        by_cases hi : i = offset
        · subst hi
          exact .inl ⟨hbit, hq⟩
        · exact .inr ⟨i, by omega, by omega, hbit, hq⟩
      · rintro (⟨hbit, hq⟩ | ⟨i, hle, hlt, hbit, hq⟩)
        · exact ⟨offset, Nat.le_refl _, by omega, hbit, hq⟩
        · exact ⟨i, by omega, by omega, hbit, hq⟩
    rw [resolveBits, hsplit, not_or]
    split
    next hnone =>
      rw [ih]
      refine and_congr_right fun _ => (and_iff_right ?_).symm
      rintro ⟨hbit, hq⟩
      rw [if_pos hbit, hq] at hnone
      cases hnone
    next seq hseq =>
      dsimp only
      rw [ih, resolve_flying, and_assoc]
      refine and_congr_right fun _ => and_congr_left fun _ => not_congr ?_
      split at hseq
      next hbit => rw [hseq, Option.some.injEq, and_iff_right hbit, eq_comm]
      · cases hseq

theorem losses_resolveBits (ack : Nat) (bits : BitVec 32) (n offset : Nat) (d : Delivery P N) :
    losses (resolveBits ack bits n offset d).2.1 = [] := by
  induction n generalizing offset d with
  | zero => rfl
  | succ n ih =>
    rw [resolveBits]
    split
    · exact ih _ _
    · dsimp only
      rw [losses_append, losses_resolve, ih]
      rfl

/-- The state once an acknowledgement is applied, before detection. -/
def acknowledge (d : Delivery P N) (now : Timestamp) (ack : Nat) (ackDelay : Option Span) (bits : BitVec 32) :
    Delivery P N :=
  let newest := d.resolve ack
  let others := resolveBits ack bits 32 0 newest.1
  let d := others.1.onNewest now ack newest.2.2 ackDelay
  if newest.2.2.isSome || others.2.2 then { d with probes := .none } else d

theorem onAck_fst (d : Delivery P N) (now : Timestamp) (ack : Nat) (ackDelay : Option Span) (bits : BitVec 32) :
    (d.onAck now ack ackDelay bits).1 = ((d.acknowledge now ack ackDelay bits).detectLost now).1 := rfl

theorem losses_onAck (d : Delivery P N) (now : Timestamp) (ack : Nat) (ackDelay : Option Span) (bits : BitVec 32) :
    losses (d.onAck now ack ackDelay bits).2 = losses ((d.acknowledge now ack ackDelay bits).detectLost now).2 := by
  unfold Delivery.onAck acknowledge
  rw [losses_append, losses_append, losses_resolve, losses_resolveBits]
  rfl

/-- What applying an acknowledgement changes: the ring and its count, the
estimate and the backoff, and the largest acknowledged, if this is larger. -/
theorem acknowledge_spec (d : Delivery P N) (now : Timestamp) (ack : Nat) (ackDelay : Option Span) (bits : BitVec 32) :
    ∃ d' rtt probes a, d.acknowledge now ack ackDelay bits = { d' with rtt, probes, largestAcked := some a } ∧
      d.Marked d' ∧ (a = ack ∨ d.largestAcked = some a) ∧
        ∀ q t r, d'.Flying q t r ↔ d.Flying q t r ∧ ¬ Names ack bits q := by
  have hmarked := (resolve_marked d ack).trans (resolveBits_marked ack bits 32 0 (d.resolve ack).1)
  have hflying (q : Nat) (t : Timestamp) (r : P) :
      (resolveBits ack bits 32 0 (d.resolve ack).1).1.Flying q t r ↔ d.Flying q t r ∧ ¬ Names ack bits q := by
    rw [resolveBits_flying, resolve_flying, and_assoc, Names, not_or]
    refine and_congr_right fun _ => and_congr_right fun _ => not_congr (exists_congr fun i => ?_)
    rw [Nat.zero_add, and_iff_right (Nat.zero_le i)]
  have hnewest : ∃ rtt a, (resolveBits ack bits 32 0 (d.resolve ack).1).1.onNewest now ack (d.resolve ack).2.2 ackDelay =
      { (resolveBits ack bits 32 0 (d.resolve ack).1).1 with rtt, largestAcked := some a } ∧
        (a = ack ∨ d.largestAcked = some a) := by
    obtain ⟨sent, n, heq⟩ := hmarked
    rw [heq]
    unfold Delivery.onNewest
    split
    · split
      · exact ⟨_, ack, rfl, .inl rfl⟩
      · exact ⟨d.rtt, ack, rfl, .inl rfl⟩
    next hold =>
      cases ha : d.largestAcked with
      | none =>
        rw [ha] at hold
        exact absurd rfl hold
      | some a => exact ⟨d.rtt, a, by rw [← ha], .inr rfl⟩
  obtain ⟨rtt, a, heq, ha⟩ := hnewest
  unfold acknowledge
  dsimp only
  rw [heq]
  split
  · exact ⟨(resolveBits ack bits 32 0 (d.resolve ack).1).1, rtt, .none, a, rfl, hmarked, ha, hflying⟩
  · exact ⟨(resolveBits ack bits 32 0 (d.resolve ack).1).1, rtt, _, a, rfl, hmarked, ha, hflying⟩

theorem Orderly.acknowledge (h : d.Orderly clock) {ack : Nat}
    (hack : ∃ largest, d.largestSent = some largest ∧ ack ≤ largest)
    (now : Timestamp) (ackDelay : Option Span) (bits : BitVec 32) :
    (d.acknowledge now ack ackDelay bits).Orderly clock := by
  obtain ⟨d', rtt, probes, a, heq, hmarked, ha, hflying⟩ := d.acknowledge_spec now ack ackDelay bits
  have h' := h.fewer hmarked fun q t r hf => ((hflying q t r).1 hf).1
  rw [heq]
  refine ⟨h'.inOrder, h'.past, h'.sent, fun {b} hb => ?_, h'.positive, h'.oldest, h'.next⟩
  obtain ⟨sent, n, rfl⟩ := hmarked
  cases hb
  rcases ha with rfl | ha
  · exact hack
  · exact h.acked ha

theorem acknowledge_largestAcked (d : Delivery P N) (now : Timestamp) (ack : Nat) (ackDelay : Option Span)
    (bits : BitVec 32) : (d.acknowledge now ack ackDelay bits).largestAcked ≠ none := by
  obtain ⟨d', rtt, probes, a, heq, -⟩ := d.acknowledge_spec now ack ackDelay bits
  rw [heq]
  exact fun h => (nomatch h)

/-! ### Sends -/

theorem put_flying (d : Delivery P N) (s : Nat) (now : Timestamp) (record : P) (q : Nat) (t : Timestamp) (r : P)
    (h : (d.sent.put ⟨s, ⟨now, .inFlight record⟩⟩).get q = some ⟨t, .inFlight r⟩) :
    (q = s ∧ t = now) ∨ d.Flying q t r := by
  rw [SequenceBuffer.get_put] at h
  split at h
  next hq =>
    cases h
    exact .inl ⟨hq, rfl⟩
  · split at h
    · cases h
    · exact .inr h

/-- What a send leaves before `advance_oldest`: what was in flight, save what
the ring dropped, and the packet itself. -/
theorem onSent_spec (d : Delivery P N) (now : Timestamp) (q : Nat) (outgoing : Outgoing P) :
    ∃ d' : Delivery P N, (d.onSent now q outgoing).1 = d'.advanceOldest ∧ d'.oldestUnresolved = d.oldestUnresolved ∧
      d'.largestAcked = d.largestAcked ∧ d'.largestSent = some (d.largestSent.elim q fun largest => max largest q) ∧
        ∀ q' t r, d'.Flying q' t r → (q' = q ∧ t = now) ∨ d.Flying q' t r := by
  unfold Delivery.onSent
  cases outgoing with
  | ackOnly =>
    dsimp only
    refine ⟨_, rfl, ?_⟩
    exact ⟨rfl, rfl, rfl, fun q' t r hf => .inr hf⟩
  | eliciting record =>
    dsimp only
    split
    all_goals
      dsimp only
      refine ⟨_, rfl, ?_⟩
      exact ⟨rfl, rfl, rfl, d.put_flying q now record⟩

/-- A send keeps both, when its sequence is new and its time not past. -/
theorem Orderly.onSent (h : d.Orderly clock) (hs : d.Settled) {now : Timestamp} (hnow : clock ≤ now) {q : Nat} (hpos : 0 < q)
    (hq : ∀ largest, d.largestSent = some largest → largest < q) (outgoing : Outgoing P) :
    (d.onSent now q outgoing).1.Orderly now ∧ (d.onSent now q outgoing).1.Settled := by
  obtain ⟨d', heq, holdest, hacked, hsent, hflying⟩ := d.onSent_spec now q outgoing
  have hnewest : d'.largestSent = some q := by
    rw [hsent]
    cases hl : d.largestSent with
    | none => rfl
    | some largest => exact congrArg some (Nat.max_eq_right (Nat.le_of_lt (hq largest hl)))
  have hbefore {q' t r} (hf : d.Flying q' t r) : q' < q := by
    obtain ⟨largest, hl, hle⟩ := h.sent hf
    exact Nat.lt_of_le_of_lt hle (hq largest hl)
  have hbehind {a} (ha : d.largestAcked = some a) : a < q := by
    obtain ⟨largest, hl, hle⟩ := h.acked ha
    exact Nat.lt_of_le_of_lt hle (hq largest hl)
  have horderly : d'.Orderly now := by
    refine ⟨fun q₁ q₂ t₁ t₂ r₁ r₂ h₁ h₂ hle => ?_, fun hf => ?_, fun hf => ⟨q, hnewest, ?_⟩, fun ha => ⟨q, hnewest, ?_⟩, ?_,
      fun hf => ?_, fun q' _ hq' => ?_⟩
    · rcases hflying _ _ _ h₁ with ⟨rfl, rfl⟩ | h₁
      · rcases hflying _ _ _ h₂ with ⟨rfl, rfl⟩ | h₂
        · exact Nat.le_refl _
        · exact absurd hle (Nat.not_le_of_lt (hbefore h₂))
      · rcases hflying _ _ _ h₂ with ⟨rfl, rfl⟩ | h₂
        · exact Nat.le_trans (h.past h₁) hnow
        · exact h.inOrder _ _ _ _ _ _ h₁ h₂ hle
    · rcases hflying _ _ _ hf with ⟨rfl, rfl⟩ | hf
      · exact Nat.le_refl _
      · exact Nat.le_trans (h.past hf) hnow
    · rcases hflying _ _ _ hf with ⟨rfl, rfl⟩ | hf
      · exact Nat.le_refl _
      · exact Nat.le_of_lt (hbefore hf)
    · rw [hacked] at ha
      exact Nat.le_of_lt (hbehind ha)
    · rw [holdest]
      exact h.positive
    · rw [holdest]
      rcases hflying _ _ _ hf with ⟨rfl, rfl⟩ | hf
      · exact h.next _ hpos hq
      · exact h.oldest hf
    · rw [holdest]
      exact Nat.le_trans (h.next q hpos hq) (Nat.le_of_lt (hq' q hnewest))
  rw [heq]
  obtain ⟨_, _, _, _, _, hfront⟩ := d'.advanceOldest_spec
  refine ⟨horderly.advanceOldest, hfront, fun {q' t r a} hf ha => ?_⟩
  rw [advanceOldest_largestAcked, hacked] at ha
  rcases hflying _ _ _ (advanceOldest_flying.1 hf) with ⟨rfl, rfl⟩ | hf
  · exact Nat.lt_of_lt_of_le (hbehind ha) (Nat.le_add_right _ _)
  · exact hs.swept hf ha

/-! ## The deadline -/

/-- Whatever is in flight, the oldest unresolved packet is. -/
theorem Orderly.front (h : d.Orderly clock) (hs : d.Settled) {q : Nat} {t : Timestamp} {r : P} (hf : d.Flying q t r) :
    ∃ t r, d.Flying d.oldestUnresolved t r := by
  refine hs.front.resolve_right fun hpast => ?_
  obtain ⟨largest, hl, hle⟩ := h.sent hf
  exact Nat.lt_irrefl _ (Nat.lt_of_lt_of_le (hpast largest hl) (Nat.le_trans (h.oldest hf) hle))

theorem flying_of_nextTimeout {deadline : Timestamp} (h : d.nextTimeout = some deadline) :
    ∃ t r, d.Flying d.oldestUnresolved t r := by
  cases ho : d.oldestInFlight with
  | none =>
    have hloss : d.lossTime = none := by
      unfold lossTime
      rw [ho]
      split
      · rfl
      · split <;> rfl
    rw [nextTimeout, hloss, probeDeadline, ho] at h
    cases h
  | some e =>
    obtain ⟨t, r, -, hf⟩ := oldestInFlight_eq_some.1 ho
    exact ⟨t, r, hf⟩

/-- The deadline with the oldest packet in flight: the probe's, or the loss
time if that is earlier. -/
theorem nextTimeout_spec {t : Timestamp} {r : P} (h : d.Flying d.oldestUnresolved t r) :
    ∃ deadline probe, d.nextTimeout = some deadline ∧ d.probeDeadline = some probe ∧ deadline ≤ probe ∧
      (∀ a, d.largestAcked = some a → d.oldestUnresolved < a → deadline ≤ t.saturatingAdd d.lossDelay) ∧
      (deadline = probe ∨ (∃ a, d.largestAcked = some a ∧ d.oldestUnresolved < a) ∧
        deadline = t.saturatingAdd d.lossDelay) := by
  have ho := oldestInFlight_eq_some.2 ⟨t, r, rfl, h⟩
  obtain ⟨probe, hprobe⟩ : ∃ probe, d.probeDeadline = some probe := by
    unfold probeDeadline
    rw [ho]
    exact ⟨_, rfl⟩
  by_cases hbefore : ∃ a, d.largestAcked = some a ∧ d.oldestUnresolved < a
  · obtain ⟨a, ha, hlt⟩ := hbefore
    have hloss : d.lossTime = some (t.saturatingAdd d.lossDelay) := by
      unfold lossTime
      rw [ha, ho]
      exact if_neg (Nat.not_le.2 hlt)
    refine ⟨(t.saturatingAdd d.lossDelay).min probe, probe, ?_, hprobe, ?_, fun _ _ _ => ?_, ?_⟩
    · rw [nextTimeout, hloss, hprobe]
      rfl
    · rw [Timestamp.le_iff, Timestamp.min_nanos]
      exact Nat.min_le_right _ _
    · rw [Timestamp.le_iff, Timestamp.min_nanos]
      exact Nat.min_le_left _ _
    · unfold Timestamp.min
      split
      · exact .inr ⟨⟨a, ha, hlt⟩, rfl⟩
      · exact .inl rfl
  · have hloss : d.lossTime = none := by
      unfold lossTime
      cases ha : d.largestAcked with
      | none => rfl
      | some a => exact if_pos (Nat.not_lt.1 fun hlt => hbefore ⟨a, ha, hlt⟩)
    refine ⟨probe, probe, ?_, hprobe, Nat.le_refl _, fun a ha hlt => absurd ⟨a, ha, hlt⟩ hbefore, .inl rfl⟩
    rw [nextTimeout, hloss, hprobe]
    rfl

theorem onTimeout_notices (d : Delivery P N) (now : Timestamp) : (d.onTimeout now).2.1 = (d.detectLost now).2 := by
  unfold Delivery.onTimeout
  dsimp only
  split
  · rfl
  · split <;> rfl

/-- Detection with nothing overdue changes nothing. -/
theorem Orderly.detectLost_quiet (h : d.Orderly clock) (hs : d.Settled) (hnone : ∀ q t r, ¬ d.Overdue now q t r) :
    d.detectLost now = (d, []) := by
  unfold Delivery.detectLost
  split
  · rfl
  next a ha =>
    rw [scanLost_quiet _ _ fun q t r hf hle hlt hdue =>
      hnone q t r ((h.overdue_iff ha).2 ⟨hf, hle, hlt, hdue⟩)]
    dsimp only
    rw [hs.front.advanceOldest]

theorem lossDelay_pos (d : Delivery P N) : 0 < d.lossDelay.nanos := by
  have hfloor : 0 < timerGranularity.nanos := by decide
  rw [lossDelay, Span.max_nanos]
  omega

/-- Before the deadline no packet is overdue. -/
theorem Orderly.not_overdue (h : d.Orderly clock) (hs : d.Settled)
    (hnow : ∀ deadline, d.nextTimeout = some deadline → now < deadline) (q : Nat) (t : Timestamp) (r : P) :
    ¬ d.Overdue now q t r := by
  rintro ⟨hf, a, ha, hlt, hcount | htime⟩
  · exact absurd hcount (Nat.not_le_of_lt (hs.swept hf ha))
  · obtain ⟨t₀, r₀, hfront⟩ := h.front hs hf
    obtain ⟨deadline, probe, hdeadline, -, -, hloss, -⟩ := nextTimeout_spec hfront
    have hle := hloss a ha (Nat.lt_of_le_of_lt (h.oldest hf) hlt)
    have hearly := hnow deadline hdeadline
    have hsent := h.inOrder _ _ _ _ _ _ hfront hf (h.oldest hf)
    have hpos := d.lossDelay_pos
    rw [Timestamp.le_iff] at hle hsent
    rw [Timestamp.saturatingAdd_nanos] at hle
    rw [Timestamp.lt_iff] at hearly
    rw [Span.le_iff, Timestamp.since_nanos] at htime
    omega

/-- A timeout before the deadline does nothing. -/
theorem Orderly.onTimeout_early (h : d.Orderly clock) (hs : d.Settled)
    (hnow : ∀ deadline, d.nextTimeout = some deadline → now < deadline) : d.onTimeout now = (d, [], none) := by
  unfold Delivery.onTimeout
  rw [h.detectLost_quiet hs (h.not_overdue hs hnow)]
  dsimp only
  split
  · rfl
  next probe hprobe =>
    obtain ⟨e, he, -⟩ := Option.map_eq_some_iff.1 hprobe
    obtain ⟨t, r, -, hf⟩ := oldestInFlight_eq_some.1 he
    obtain ⟨deadline, probe', hdeadline, hprobe', hle, -⟩ := nextTimeout_spec hf
    obtain rfl := Option.some.inj (hprobe.symm.trans hprobe')
    exact if_pos (Nat.lt_of_lt_of_le (hnow deadline hdeadline) hle)

/-- The sum behind the loss deadline stays within a timestamp. -/
def Unsaturated (d : Delivery P N) : Prop :=
  ∀ t r, d.Flying d.oldestUnresolved t r → t.nanos + d.lossDelay.nanos < 2 ^ 64

/-- A timeout from the deadline on reports a loss or asks for probes. -/
theorem Orderly.onTimeout_late (h : d.Orderly clock) (hs : d.Settled) {deadline : Timestamp}
    (hdeadline : d.nextTimeout = some deadline) (hle : deadline ≤ now) (hsum : d.Unsaturated) :
    losses (d.onTimeout now).2.1 ≠ [] ∨ (d.onTimeout now).2.2 = some probePackets := by
  by_cases hany : ∃ q t r, d.Overdue now q t r
  · obtain ⟨q, t, r, hover⟩ := hany
    refine .inl ?_
    rw [onTimeout_notices]
    exact List.ne_nil_of_mem (((h.detectLost now).1 q r).2 ⟨t, hover⟩)
  · have hnone (q : Nat) (t : Timestamp) (r : P) : ¬ d.Overdue now q t r := fun hover => hany ⟨q, t, r, hover⟩
    obtain ⟨t, r, hf⟩ := flying_of_nextTimeout hdeadline
    obtain ⟨deadline', probe, hdeadline', hprobe, -, -, hwhich⟩ := nextTimeout_spec hf
    obtain rfl := Option.some.inj (hdeadline.symm.trans hdeadline')
    rcases hwhich with rfl | ⟨⟨a, ha, hlt⟩, hloss⟩
    · refine .inr ?_
      unfold Delivery.onTimeout
      rw [h.detectLost_quiet hs hnone]
      dsimp only
      rw [hprobe]
      dsimp only
      rw [if_neg (show ¬ now < deadline from Nat.not_lt.2 hle)]
    · -- The oldest packet has been outstanding for the delay.
      refine absurd ⟨hf, a, ha, hlt, .inr ?_⟩ (hnone d.oldestUnresolved t r)
      have hfits := hsum t r hf
      rw [hloss, Timestamp.le_iff, Timestamp.saturatingAdd_nanos] at hle
      rw [Span.le_iff, Timestamp.since_nanos]
      omega

end Delivery

/-! ## Every run -/

/-- A ledger with the last time it was given. -/
structure Clocked (P : Type) (N : Nat) [NeZero N] where
  ledger : Ledger P N
  clock : Timestamp

/-- The time an operation is given. -/
def LedgerOp.time : LedgerOp P → Option Timestamp
  | .onSent now _ _ | .onAck now _ _ _ | .onTimeout now => some now
  | .onPathChange => none

namespace Clocked

def after (s : Clocked P N) (op : LedgerOp P) : Clocked P N := ⟨s.ledger.apply op, op.time.getD s.clock⟩

/-- Sequences sent strictly increase, nothing is acknowledged past the largest
sent, and times do not decrease. -/
def sys (P : Type) (N : Nat) [NeZero N] : Lts.Sys (Clocked P N) (LedgerOp P) where
  start s := s.clock = .zero ∧ ∃ now delay, s.ledger = ⟨Delivery.new now delay, [], []⟩
  step s op s' := op.Admissible s.ledger ∧ (∀ now, op.time = some now → s.clock ≤ now) ∧
    s' = s.after op

variable {s : Clocked P N}

theorem orderly_step {op : LedgerOp P} (hop : op.Admissible s.ledger) (htime : ∀ now, op.time = some now → s.clock ≤ now)
    (h : s.ledger.delivery.Orderly s.clock) (hs : s.ledger.delivery.Settled) :
    (s.ledger.apply op).delivery.Orderly (op.time.getD s.clock) ∧ (s.ledger.apply op).delivery.Settled := by
  cases op with
  | onSent now sequence outgoing => exact h.onSent hs (htime now rfl) hop.1 hop.2 outgoing
  | onAck now ack ackDelay bits =>
    have hacked := (h.later (htime now rfl)).acknowledge hop.2 now ackDelay bits
    exact ⟨(hacked.detectLost now).2.2.2,
      hacked.detectLost_settled (fun hnone => (Delivery.acknowledge_largestAcked _ _ _ _ _ hnone).elim) now⟩
  | onTimeout now =>
    have hlater := h.later (htime now rfl)
    have hlost := (hlater.detectLost now).2.2.2
    have hsettled := hlater.detectLost_settled (fun _ => hs) now
    show (s.ledger.delivery.onTimeout now).1.Orderly now ∧ (s.ledger.delivery.onTimeout now).1.Settled
    unfold Delivery.onTimeout
    dsimp only
    split
    · exact ⟨hlost, hsettled⟩
    · split
      · exact ⟨hlost, hsettled⟩
      · exact ⟨hlost.retimed _ _, hsettled.retimed _ _⟩
  | onPathChange => exact ⟨h.retimed _ _, hs.retimed _ _⟩

theorem reachable_orderly (h : Lts.Reachable (sys P N) s) :
    s.ledger.delivery.Orderly s.clock ∧ s.ledger.delivery.Settled := by
  refine Lts.Reach.invariant (P := fun s => s.ledger.delivery.Orderly s.clock ∧ s.ledger.delivery.Settled) ?_ ?_ h
  · rintro ⟨_, clock⟩ ⟨-, now, delay, rfl⟩
    exact Delivery.new_orderly now clock delay
  · rintro s op _ - ⟨h, hs⟩ - ⟨hop, htime, rfl⟩
    exact orderly_step hop htime h hs

/-- **Loss detection is the plain rule.** The packets an acknowledgement or a
timeout reports lost, each once, are those in flight once the acknowledgement
is applied that are before the largest acknowledged and at least three behind
it or outstanding for the loss delay. -/
theorem loss_rule (h : Lts.Reachable (sys P N) s) (now : Timestamp) :
    (∀ ack ackDelay bits, (∃ largest, s.ledger.delivery.largestSent = some largest ∧ ack ≤ largest) →
      let applied := s.ledger.delivery.acknowledge now ack ackDelay bits
      let lost := losses (s.ledger.delivery.onAck now ack ackDelay bits).2
      (∀ q t r, applied.Flying q t r ↔ s.ledger.delivery.Flying q t r ∧ ¬ Delivery.Names ack bits q) ∧
        (∀ q r, (q, r) ∈ lost ↔ ∃ t, applied.Overdue now q t r) ∧ (lost.map Prod.fst).Nodup) ∧
    let lost := losses (s.ledger.delivery.onTimeout now).2.1
    (∀ q r, (q, r) ∈ lost ↔ ∃ t, s.ledger.delivery.Overdue now q t r) ∧ (lost.map Prod.fst).Nodup := by
  have horderly := (reachable_orderly h).1
  refine ⟨fun ack ackDelay bits hack => ?_, ?_⟩
  · obtain ⟨d', rtt, probes, a, heq, -, -, hflying⟩ := s.ledger.delivery.acknowledge_spec now ack ackDelay bits
    obtain ⟨hlost, hnodup, -⟩ := (horderly.acknowledge hack now ackDelay bits).detectLost now
    dsimp only
    rw [Delivery.losses_onAck]
    refine ⟨?_, hlost, hnodup⟩
    rw [heq]
    exact hflying
  · obtain ⟨hlost, hnodup, -⟩ := horderly.detectLost now
    rw [Delivery.onTimeout_notices]
    exact ⟨hlost, hnodup⟩

/-- Packets `1` to `n` sent at once, each with its own number. -/
def burst : Nat → Clocked Nat 8
  | 0 => ⟨⟨Delivery.new .zero .default, [], []⟩, .zero⟩
  | n + 1 => (burst n).after (.onSent .zero (n + 1) (.eliciting (n + 1)))

theorem burst_reachable (n : Nat) :
    Lts.Reachable (sys Nat 8) (burst n) ∧ ∀ largest, (burst n).ledger.delivery.largestSent = some largest → largest ≤ n := by
  induction n with
  | zero => exact ⟨.start ⟨rfl, .zero, .default, rfl⟩, fun _ h => (nomatch h)⟩
  | succ n ih =>
    obtain ⟨hreach, hlargest⟩ := ih
    have hclock : (burst n).clock = .zero := by cases n <;> rfl
    have hfresh : (LedgerOp.onSent .zero (n + 1) (.eliciting (n + 1))).Admissible (burst n).ledger :=
      ⟨Nat.succ_pos n, fun l hl => Nat.lt_succ_of_le (hlargest l hl)⟩
    refine ⟨.step hreach trivial ⟨hfresh, ?_, rfl⟩, fun l hl => ?_⟩
    · rintro _ ⟨⟩
      rw [hclock]
      exact Nat.le_refl _
    · have hmax := Option.some.inj ((Delivery.onSent_largestSent ..).symm.trans hl)
      cases hbefore : (burst n).ledger.delivery.largestSent with
      | none =>
        rw [hbefore] at hmax
        exact Nat.le_of_eq hmax.symm
      | some largest =>
        have hle := hlargest largest hbefore
        rw [hbefore] at hmax
        exact hmax ▸ Nat.max_le.2 ⟨Nat.le_succ_of_le hle, Nat.le_refl _⟩

/-- Only the first is far enough behind the last to be lost with its
acknowledgement. -/
theorem loss_rule_burst : losses ((burst 4).ledger.delivery.onAck .zero 4 none 0).2 = [(1, 1)] ∧
    ∃ t, ((burst 4).ledger.delivery.acknowledge .zero 4 none 0).Overdue .zero 1 t 1 := by
  have hlost : losses ((burst 4).ledger.delivery.onAck .zero 4 none 0).2 = [(1, 1)] := by decide
  have hrule := ((loss_rule (burst_reachable 4).1 .zero).1 4 none 0 ⟨4, rfl, by decide⟩).2.1
  exact ⟨hlost, (hrule 1 1).1 (by rw [hlost]; exact List.mem_singleton.2 rfl)⟩

/-- **The ledger's deadline is exact.** There is one just when a packet is in
flight. Before it `on_timeout` does nothing at all; from it on, as long as the
loss deadline it is computed from did not saturate, it reports a loss or asks
for probes. -/
theorem deadline_exact (h : Lts.Reachable (sys P N) s) :
    (s.ledger.delivery.nextTimeout.isSome ↔ ∃ q t r, s.ledger.delivery.Flying q t r) ∧
    ∀ now,
      ((∀ deadline, s.ledger.delivery.nextTimeout = some deadline → now < deadline) →
        s.ledger.delivery.onTimeout now = (s.ledger.delivery, [], none)) ∧
      ∀ deadline, s.ledger.delivery.nextTimeout = some deadline → deadline ≤ now → s.ledger.delivery.Unsaturated →
        losses (s.ledger.delivery.onTimeout now).2.1 ≠ [] ∨
          (s.ledger.delivery.onTimeout now).2.2 = some probePackets := by
  obtain ⟨horderly, hsettled⟩ := reachable_orderly h
  refine ⟨⟨fun hsome => ?_, fun ⟨q, t, r, hf⟩ => ?_⟩, fun now => ⟨horderly.onTimeout_early hsettled, ?_⟩⟩
  · obtain ⟨deadline, hd⟩ := Option.isSome_iff_exists.1 hsome
    obtain ⟨t, r, hf⟩ := Delivery.flying_of_nextTimeout hd
    exact ⟨_, t, r, hf⟩
  · obtain ⟨t, r, hfront⟩ := horderly.front hsettled hf
    obtain ⟨deadline, _, hd, _⟩ := Delivery.nextTimeout_spec hfront
    rw [hd]
    rfl
  · intro deadline hd hle hsum
    exact horderly.onTimeout_late hsettled hd hle hsum

theorem deadline_exact_burst : ∃ deadline, (burst 4).ledger.delivery.nextTimeout = some deadline ∧
    (burst 4).ledger.delivery.onTimeout .zero = ((burst 4).ledger.delivery, [], none) ∧
    (losses ((burst 4).ledger.delivery.onTimeout deadline).2.1 ≠ [] ∨
      ((burst 4).ledger.delivery.onTimeout deadline).2.2 = some probePackets) := by
  obtain ⟨-, hwhen⟩ := deadline_exact (burst_reachable 4).1
  have hdeadline : (burst 4).ledger.delivery.nextTimeout =
      some (Timestamp.zero.saturatingAdd (Span.fromMillis 325)) := by decide
  refine ⟨_, hdeadline, (hwhen .zero).1 fun deadline h => ?_, (hwhen _).2 _ hdeadline (Nat.le_refl _) fun t r hf => ?_⟩
  · obtain rfl := Option.some.inj (hdeadline.symm.trans h)
    decide
  · obtain ⟨rfl, rfl⟩ := hf.unique (show (burst 4).ledger.delivery.Flying 1 .zero 1 from rfl)
    decide

end Clocked

end HexNet.Ack
