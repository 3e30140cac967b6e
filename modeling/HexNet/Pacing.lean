/-
Runs of the send allowance.

Whatever order its calls come in, the bucket keeps the rate, the refill and the
capacity in step, so a deadline it gives is exact. Between calls it only earns,
and earning twice is earning once: a read at `s` and then at `t` leaves what
the read at `t` alone would have left. So a schedule's answers do not depend
on the reads put in between, and what it spends is bounded by one bucket and
what the rate earns meanwhile.
-/
import HexNet.Budget
import HexNet.Lib.Lts

namespace HexNet

/-! ## The calls -/

theorem BudgetConfig.new_eq {rate maxPacket : Nat} {config : BudgetConfig}
    (h : BudgetConfig.new rate maxPacket = some config) : config.rate = rate ∧ config.maxPacket = maxPacket := by
  unfold BudgetConfig.new at h
  split at h
  · cases h
    exact ⟨rfl, rfl⟩
  · cases h

/-- A call on the allowance. -/
inductive BudgetCall
  | available (now : Timestamp)
  | onSent (len : Nat) (eliciting : Bool)
  | onLost
  | onSpurious
  | assess (now : Timestamp) (rtt : Ack.Rtt)
  | onPathChange (now : Timestamp)

namespace Budget

def after (b : Budget) : BudgetCall → Budget
  | .available now => (b.available now).1
  | .onSent len eliciting => b.onSent len eliciting
  | .onLost => b.onLost
  | .onSpurious => b.onSpurious
  | .assess now rtt => b.assess now rtt
  | .onPathChange now => b.onPathChange now

/-- An allowance of `config`, called in any order. -/
def sys (config : BudgetConfig) : Lts.Sys Budget BudgetCall where
  start b := ∃ now, b = new now config
  step b call b' := b' = b.after call

theorem after_config (b : Budget) (call : BudgetCall) : (b.after call).config = b.config := by
  cases call with
  | available now => exact b.advance_config now
  | assess now rtt => exact b.assess_config now rtt
  | onSent len eliciting => simp only [after, onSent]
  | onLost => simp only [after, onLost]
  | onSpurious => simp only [after, onSpurious]
  | onPathChange now => simp only [after, onPathChange, setRate]

theorem reachable_config {config : BudgetConfig} {b : Budget} (h : Lts.Reachable (sys config) b) : b.config = config := by
  refine Lts.Reach.invariant (P := fun b => b.config = config) ?_ ?_ h
  · rintro b ⟨now, rfl⟩
    rfl
  · rintro b call b' - hb - rfl
    exact (b.after_config call).trans hb

/-- **The send deadline is neither early nor late** in any state of any run. -/
theorem send_deadline_exact {rate maxPacket : Nat} {config : BudgetConfig}
    (hconfig : BudgetConfig.new rate maxPacket = some config) {b : Budget} (h : Lts.Reachable (sys config) b) :
    (minRate ≤ b.rate ∧ b.rate ≤ rate) ∧ (b.refill ≠ 0 ∧ b.refill = refillOf b.rate) ∧
      b.tokens ≤ b.capacity ∧ tokensOf maxPacket ≤ b.capacity ∧
      ∀ len ≤ maxMessage, ∀ now, b.lastRefill ≤ now → b.Unsaturated len →
        (b.readyFor len ≤ now ↔ headerMaxLen + tagLen + messageFrameOverhead + len ≤ (b.available now).2) := by
  obtain ⟨hrate, hpacket⟩ := BudgetConfig.new_eq hconfig
  have heq := reachable_config h
  refine ⟨⟨b.rate_ge, ?_⟩, ⟨b.refill_pos.ne', b.refill_eq⟩, b.tokens_le, ?_, ?_⟩
  · rw [← hrate, ← heq]
    exact b.rate_le
  · rw [← hpacket, ← heq]
    exact b.maxPacket_le_capacity
  · intro len hlen now hback hsum
    exact b.readyFor_le_iff hlen hback hsum

/-- An allowance just opened, with the bytes of one datagram spent. -/
def spentOnce : Budget := (new .zero .default).onSent 1200 true

theorem send_deadline_exact_spent : spentOnce.readyFor 1024 ≤ ⟨30000000, by decide⟩ ↔
    headerMaxLen + tagLen + messageFrameOverhead + 1024 ≤ (spentOnce.available ⟨30000000, by decide⟩).2 :=
  (send_deadline_exact (show BudgetConfig.new 8000 maxDatagram = some .default from rfl)
    (.step (.start ⟨.zero, rfl⟩) trivial (show (sys _).step _ (.onSent 1200 true) spentOnce from rfl))).2.2.2.2
    1024 (by decide) _ (by decide) (by unfold Unsaturated; decide)

/-! ## Earning twice -/

/-- The allowance with its level set. -/
def filled (b : Budget) (now : Timestamp) (tokens : Nat) (tokens_le : tokens ≤ b.capacity) : Budget :=
  { b with lastRefill := now, tokens, tokens_le }

theorem filled_congr {b : Budget} {now now' : Timestamp} {n n' : Nat} {hn : n ≤ b.capacity} {hn' : n' ≤ b.capacity}
    (hnow : now = now') (hlevel : n = n') : b.filled now n hn = b.filled now' n' hn' := by
  subst hnow hlevel
  rfl

/-- Earning sets the level and its time, and nothing else. -/
theorem advance_eq (b : Budget) {now : Timestamp} (h : b.lastRefill ≤ now) :
    b.advance now = b.filled now (min (b.tokens + (now.nanos - b.lastRefill.nanos) * b.refill) b.capacity)
      (Nat.min_le_right _ _) := by
  have hnow := b.advance_lastRefill h
  have hlevel := b.advance_tokens now
  unfold advance at hnow hlevel ⊢
  dsimp only at hnow hlevel ⊢
  split at hnow
  next hzero =>
    rw [if_pos hzero] at hlevel ⊢
    exact filled_congr hnow hlevel
  next hsome =>
    rw [if_neg hsome] at hlevel ⊢
    exact filled_congr rfl hlevel

@[simp] theorem advance_refill (b : Budget) (now : Timestamp) : (b.advance now).refill = b.refill := by
  unfold advance
  dsimp only
  split <;> rfl

@[simp] theorem advance_capacity (b : Budget) (now : Timestamp) : (b.advance now).capacity = b.capacity := by
  unfold advance
  dsimp only
  split <;> rfl

/-- **Earning up to `s` and then up to `t` is earning up to `t`**: no read
rounds anything away. -/
theorem advance_advance (b : Budget) {s t : Timestamp} (h : s ≤ t) : (b.advance s).advance t = b.advance t := by
  rcases Nat.le_total s.nanos b.lastRefill.nanos with hearly | hlate
  · rw [advance_early hearly]
  · have hs := b.advance_lastRefill hlate
    have hst : (b.advance s).lastRefill ≤ t := by rw [hs]; exact h
    rw [(b.advance s).advance_eq hst, b.advance_eq (Timestamp.le_trans hlate h)]
    have hlevel : min ((b.advance s).tokens + (t.nanos - (b.advance s).lastRefill.nanos) * (b.advance s).refill)
        (b.advance s).capacity = min (b.tokens + (t.nanos - b.lastRefill.nanos) * b.refill) b.capacity := by
      rw [advance_tokens, advance_refill, advance_capacity, hs]
      have hsplit : t.nanos - b.lastRefill.nanos = (s.nanos - b.lastRefill.nanos) + (t.nanos - s.nanos) := by
        rw [Timestamp.le_iff] at h
        omega
      rw [hsplit, Nat.add_mul]
      omega
    have hfield : ∀ n (hn : n ≤ (b.advance s).capacity) (hn' : n ≤ b.capacity),
        (b.advance s).filled t n hn = b.filled t n hn' := by
      rw [b.advance_eq hlate]
      exact fun _ _ _ => rfl
    rw [hfield _ _ (hlevel.trans_le (Nat.min_le_right _ _))]
    exact filled_congr rfl hlevel

/-! ## Schedules -/

end Budget

/-- A call of a schedule with the time it is made at. An `extra` is a read put
in between. -/
inductive Tap
  | read (now : Timestamp)
  | spend (now : Timestamp) (len : Nat) (eliciting : Bool)
  | extra (now : Timestamp)

namespace Tap

def time : Tap → Timestamp
  | read now => now
  | spend now _ _ => now
  | extra now => now

def scheduled : Tap → Bool
  | extra _ => false
  | _ => true

end Tap

/-- `poll_transmit`'s use of the allowance: a read, and directly after it the
datagram sent, if one is. -/
structure Draw where
  now : Timestamp
  sent : Option (Nat × Bool)

namespace Draw

def taps (d : Draw) : List Tap :=
  match d.sent with
  | none => [.read d.now]
  | some (len, eliciting) => [.read d.now, .spend d.now len eliciting]

/-- Bytes it spends. -/
def cost (d : Draw) : Nat := (d.sent.map Prod.fst).getD 0

end Draw

namespace Budget

/-- What the scheduled reads of a run answer. -/
def answers : Budget → List Tap → List Nat
  | _, [] => []
  | b, .read now :: taps => (b.available now).2 :: answers (b.available now).1 taps
  | b, .spend _ len eliciting :: taps => answers (b.onSent len eliciting) taps
  | b, .extra now :: taps => answers (b.available now).1 taps

/-- The allowance after a draw. -/
def drawn (b : Budget) (d : Draw) : Budget :=
  match d.sent with
  | none => b.advance d.now
  | some (len, eliciting) => (b.advance d.now).onSent len eliciting

/-- Later reads cannot tell the two allowances apart. -/
def Level (s : Timestamp) (b₁ b₂ : Budget) : Prop := ∀ t, s ≤ t → b₁.advance t = b₂.advance t

theorem Level.extra {s t : Timestamp} {b₁ b₂ : Budget} (h : Level s b₁ b₂) (hst : s ≤ t) : Level t (b₁.advance t) b₂ :=
  fun u hu => (b₁.advance_advance hu).trans (h u (Timestamp.le_trans hst hu))

theorem Level.answer {s t : Timestamp} {b₁ b₂ : Budget} (h : Level s b₁ b₂) (hst : s ≤ t) :
    b₁.available t = b₂.available t := by
  unfold available
  rw [h t hst]

theorem Level.refl (s : Timestamp) (b : Budget) : Level s b b := fun _ _ => rfl

theorem answers_draw (b : Budget) (d : Draw) (taps : List Tap) :
    b.answers (d.taps ++ taps) = (b.available d.now).2 :: (b.drawn d).answers taps := by
  obtain ⟨now, sent⟩ := d
  cases sent with
  | none => simp only [Draw.taps, List.cons_append, List.nil_append, answers, drawn, available]
  | some spent => simp only [Draw.taps, List.cons_append, List.nil_append, answers, drawn, available]

/-- The reads put in between change no answer, both between two draws and
between a draw's read and its spending, where the read's own time has not
passed yet. -/
theorem answers_extra {taps : List Tap} (horder : (taps.map Tap.time).Pairwise (· ≤ ·)) (b₁ : Budget) :
    (∀ {s b₂} {draws : List Draw}, (∀ x ∈ taps, s ≤ x.time) → Level s b₁ b₂ →
      taps.filter Tap.scheduled = draws.flatMap Draw.taps → b₁.answers taps = b₂.answers (draws.flatMap Draw.taps)) ∧
    (∀ {s len eliciting} {draws : List Draw}, (∀ x ∈ taps, s ≤ x.time) → b₁.advance s = b₁ →
      taps.filter Tap.scheduled = .spend s len eliciting :: draws.flatMap Draw.taps →
      b₁.answers taps = (b₁.onSent len eliciting).answers (draws.flatMap Draw.taps)) := by
  induction taps generalizing b₁ with
  | nil =>
    refine ⟨fun {s b₂ draws} _ _ hplan => ?_, fun _ _ hplan => nomatch hplan⟩
    rw [← hplan]
    rfl
  | cons x taps ih =>
    rw [List.map_cons, List.pairwise_cons] at horder
    obtain ⟨hnext, horder⟩ := horder
    have hlater : ∀ y ∈ taps, x.time ≤ y.time := fun y hy => hnext _ (List.mem_map_of_mem hy)
    constructor
    · intro s b₂ draws hfrom hlevel hplan
      have hsx := hfrom x (List.mem_cons_self ..)
      cases x with
      | extra now => exact (ih horder _).1 hlater (hlevel.extra hsx) hplan
      | read now =>
        cases draws with
        | nil => cases hplan
        | cons d draws =>
          obtain ⟨now', sent⟩ := d
          rw [List.flatMap_cons, answers_draw]
          cases sent with
          | none =>
            obtain ⟨hnow, htail⟩ := List.cons.inj (hplan.trans (List.flatMap_cons ..))
            cases hnow
            have hread : s ≤ now' := hsx
            rw [answers, hlevel.answer hread]
            exact congrArg _ ((ih horder _).1 hlater (.refl now' _) htail)
          | some spent =>
            obtain ⟨hnow, htail⟩ := List.cons.inj (hplan.trans (List.flatMap_cons ..))
            cases hnow
            have hread : s ≤ now' := hsx
            rw [answers, hlevel.answer hread]
            exact congrArg _ ((ih horder _).2 hlater (b₂.advance_advance (Nat.le_refl _)) htail)
      | spend now len eliciting =>
        cases draws with
        | nil => cases hplan
        | cons d draws =>
          obtain ⟨now', sent⟩ := d
          cases sent <;> cases hplan
    · intro s len eliciting draws hfrom hrest hplan
      have hsx := hfrom x (List.mem_cons_self ..)
      cases x with
      | extra now =>
        have hmem : Tap.spend s len eliciting ∈ taps :=
          (List.mem_filter.1 (show _ ∈ taps.filter Tap.scheduled from hplan ▸ List.mem_cons_self ..)).1
        have hnow : now = s := Timestamp.ext (Nat.le_antisymm (hlater _ hmem) hsx)
        subst hnow
        show answers (b₁.advance now) taps = _
        rw [hrest]
        exact (ih horder _).2 hlater hrest hplan
      | read now => cases hplan
      | spend now len' eliciting' =>
        obtain ⟨hspend, htail⟩ := List.cons.inj hplan
        cases hspend
        rw [answers]
        exact (ih horder _).1 hlater (.refl s _) htail

/-! ## What a schedule spends -/

/-- Bytes the draws spend together. -/
def spent (draws : List Draw) : Nat := (draws.map Draw.cost).sum

theorem drawn_refill (b : Budget) (d : Draw) : (b.drawn d).refill = b.refill := by
  unfold drawn
  split <;> simp [onSent]

/-- A draw within what its read answered takes its bytes, and no more. -/
theorem drawn_tokens (b : Budget) {d : Draw} (h : d.cost ≤ (b.available d.now).2) :
    (b.drawn d).tokens + tokensOf d.cost = (b.advance d.now).tokens := by
  have hcost : tokensOf d.cost ≤ (b.advance d.now).tokens := le_wholeBytes.1 (h.trans (Nat.min_le_left _ _))
  obtain ⟨now, sent⟩ := d
  cases sent with
  | none => simp [drawn, Draw.cost, tokensOf]
  | some spent =>
    rw [drawn, onSent_tokens]
    exact Nat.sub_add_cancel hcost

theorem drawn_lastRefill (b : Budget) (d : Draw) : (b.drawn d).lastRefill = (b.advance d.now).lastRefill := by
  unfold drawn
  split <;> simp

theorem le_advance_lastRefill (b : Budget) (now : Timestamp) : now ≤ (b.advance now).lastRefill := by
  rcases Nat.le_total b.lastRefill.nanos now.nanos with h | h
  · rw [b.advance_lastRefill h]
    exact Nat.le_refl _
  · rw [advance_early h]
    exact h

/-- What a while longer can add to the level. -/
theorem advance_tokens_le (b : Budget) {s t : Timestamp} (h : s ≤ t) :
    (b.advance t).tokens ≤ (b.advance s).tokens + (t.nanos - s.nanos) * b.refill := by
  have hsplit : t.nanos - b.lastRefill.nanos ≤ (s.nanos - b.lastRefill.nanos) + (t.nanos - s.nanos) := by
    rw [Timestamp.le_iff] at h
    omega
  have hearn := Nat.mul_le_mul_right b.refill hsplit
  rw [Nat.add_mul] at hearn
  rw [advance_tokens, advance_tokens]
  omega

/-- The level at the start and what is earned meanwhile pay for the draws. -/
theorem spent_tokens_le {draws : List Draw} {t₁ : Timestamp} (horder : (draws.map Draw.now).Pairwise (· ≤ ·))
    (b : Budget) {t₀ : Timestamp} (hstart : ∀ d ∈ draws, t₀ ≤ d.now) (hend : ∀ d ∈ draws, d.now ≤ t₁)
    (hwithin : List.Forall₂ (fun d reported => d.cost ≤ reported) draws (b.answers (draws.flatMap Draw.taps))) :
    tokensOf (spent draws) ≤ (b.advance t₀).tokens + (t₁.nanos - t₀.nanos) * b.refill := by
  induction draws generalizing b t₀ with
  | nil => simp [spent, tokensOf]
  | cons d draws ih =>
    rw [List.flatMap_cons, answers_draw, List.forall₂_cons] at hwithin
    obtain ⟨hcost, hwithin⟩ := hwithin
    rw [List.map_cons, List.pairwise_cons] at horder
    obtain ⟨hlater, horder⟩ := horder
    have hrest := ih horder (b.drawn d) (fun e he => hlater _ (List.mem_map_of_mem he))
      (fun e he => hend e (List.mem_cons_of_mem _ he)) hwithin
    -- a draw leaves nothing to earn at its own time
    have hstill : (b.drawn d).advance d.now = b.drawn d :=
      advance_early (by rw [drawn_lastRefill]; exact b.le_advance_lastRefill d.now)
    have hhead := b.advance_tokens_le (hstart d (List.mem_cons_self ..))
    have htokens := b.drawn_tokens hcost
    rw [hstill, b.drawn_refill d] at hrest
    have hsplit : t₁.nanos - t₀.nanos = (d.now.nanos - t₀.nanos) + (t₁.nanos - d.now.nanos) := by
      have h₀ := hstart d (List.mem_cons_self ..)
      have h₁ := hend d (List.mem_cons_self ..)
      rw [Timestamp.le_iff] at h₀ h₁
      omega
    have hsum : tokensOf (spent (d :: draws)) = tokensOf d.cost + tokensOf (spent draws) := by
      simp only [tokensOf_eq, spent, List.map_cons, List.sum_cons, Nat.add_mul]
    rw [hsum, hsplit, Nat.add_mul]
    omega

/-- What the refill earns is never above what the rate pays. -/
theorem earned_le_rate (b : Budget) (nanos : Nat) : nanos * b.refill * 1000000000 ≤ b.rate * nanos * 2 ^ 32 := by
  have h : b.refill * 1000000000 ≤ b.rate * 2 ^ 32 := by
    rw [b.refill_eq, refillOf, Nat.shiftLeft_eq]
    exact Nat.div_mul_le_self _ _
  calc nanos * b.refill * 1000000000 = nanos * (b.refill * 1000000000) := Nat.mul_assoc ..
    _ ≤ nanos * (b.rate * 2 ^ 32) := Nat.mul_le_mul_left _ h
    _ = b.rate * nanos * 2 ^ 32 := by rw [← Nat.mul_assoc, Nat.mul_comm nanos]

/-- **What the allowance delivers does not depend on how often it is read**:
reads put in between change no scheduled answer, and draws within what they
were answered spend one bucket and what the rate earns meanwhile at most. -/
theorem reads_change_nothing (b : Budget) (draws : List Draw) :
    (∀ taps : List Tap, taps.filter Tap.scheduled = draws.flatMap Draw.taps →
      (taps.map Tap.time).Pairwise (· ≤ ·) → b.answers taps = b.answers (draws.flatMap Draw.taps)) ∧
    ∀ t₀ t₁ : Timestamp, (draws.map Draw.now).Pairwise (· ≤ ·) → (∀ d ∈ draws, t₀ ≤ d.now ∧ d.now ≤ t₁) →
      List.Forall₂ (fun d reported => d.cost ≤ reported) draws (b.answers (draws.flatMap Draw.taps)) →
      spent draws ≤ wholeBytes b.capacity + b.rate * (t₁.nanos - t₀.nanos) / 1000000000 := by
  constructor
  · intro taps hplan horder
    exact (answers_extra horder b).1 (fun x _ => Nat.zero_le x.time.nanos) (.refl .zero b) hplan
  · intro t₀ t₁ horder hbetween hwithin
    have hpaid := spent_tokens_le horder b (fun d hd => (hbetween d hd).1) (fun d hd => (hbetween d hd).2) hwithin
    have hlevel := (b.advance t₀).tokens_le
    rw [advance_capacity] at hlevel
    have hbucket : b.capacity = wholeBytes b.capacity * 2 ^ 32 := by
      rw [b.capacity_eq, capacityFor, wholeBytes, tokensOf_eq, Nat.shiftRight_eq_div_pow, fractionBits,
        Nat.mul_div_cancel _ (by decide)]
    have hearned := b.earned_le_rate (t₁.nanos - t₀.nanos)
    rw [tokensOf_eq] at hpaid
    have hgain : (spent draws - wholeBytes b.capacity) * 2 ^ 32 ≤ (t₁.nanos - t₀.nanos) * b.refill := by
      rw [Nat.sub_mul, ← hbucket]
      omega
    refine Nat.sub_le_iff_le_add'.1 ((Nat.le_div_iff_mul_le (by decide)).2 ?_)
    refine Nat.le_of_mul_le_mul_right ?_ (show 0 < 2 ^ 32 by decide)
    calc (spent draws - wholeBytes b.capacity) * 1000000000 * 2 ^ 32
        = (spent draws - wholeBytes b.capacity) * 2 ^ 32 * 1000000000 := Nat.mul_right_comm ..
      _ ≤ (t₁.nanos - t₀.nanos) * b.refill * 1000000000 := Nat.mul_le_mul_right _ hgain
      _ ≤ b.rate * (t₁.nanos - t₀.nanos) * 2 ^ 32 := hearned

/-- A datagram of 1000 bytes, and a read a microsecond later. -/
def twoDraws : List Draw := [⟨.zero, some (1000, true)⟩, ⟨⟨1000, by decide⟩, none⟩]

theorem reads_change_nothing_two :
    (new .zero .default).answers
        [.extra .zero, .read .zero, .extra .zero, .spend .zero 1000 true, .extra ⟨7, by decide⟩, .read ⟨1000, by decide⟩] =
      (new .zero .default).answers (twoDraws.flatMap Draw.taps) ∧
    spent twoDraws ≤ wholeBytes (new .zero .default).capacity + 8000 * 1000 / 1000000000 :=
  ⟨(reads_change_nothing (new .zero .default) twoDraws).1 _ rfl (by decide),
    (reads_change_nothing (new .zero .default) twoDraws).2 .zero ⟨1000, by decide⟩ (by decide) (by decide)
      (.cons (by decide) (.cons (by decide) .nil))⟩

end Budget
end HexNet
