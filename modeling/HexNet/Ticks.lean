/-
Simulation ticks (`time.rs`): a clock that maps instants to ticks at a fixed
rate, and a rate that can be changed.

`set_period` documents that a change of rate neither skips a tick nor repeats
one, since the clock is rebased on the start of the tick in progress. No tick
is ever repeated: `ticks_sorted` holds over any calls in the order of time. But
the part of the tick that has passed is measured again with the new period, and
where it is longer than that period the clock is a tick or more ahead at once
(`tickAt_setPeriod_iff`).
-/
import HexNet.Time

namespace HexNet

/-- A simulation step. -/
@[ext] structure Tick where
  n : Nat
  lt : n < 2 ^ 32
deriving DecidableEq, Repr

namespace Tick

def zero : Tick := ⟨0, by decide⟩

def max : Tick := ⟨2 ^ 32 - 1, by decide⟩

instance : LE Tick := ⟨fun a b => a.n ≤ b.n⟩
instance (a b : Tick) : Decidable (a ≤ b) := inferInstanceAs (Decidable (a.n ≤ b.n))

theorem le_iff {a b : Tick} : a ≤ b ↔ a.n ≤ b.n := Iff.rfl

theorem le_trans {a b c : Tick} (h : a ≤ b) (h' : b ≤ c) : a ≤ c := Nat.le_trans h h'

def saturatingAdd (t : Tick) (n : Nat) : Tick := ⟨min (t.n + n) (2 ^ 32 - 1), by omega⟩

@[simp] theorem saturatingAdd_n (t : Tick) (n : Nat) : (t.saturatingAdd n).n = min (t.n + n) (2 ^ 32 - 1) := rfl

end Tick

/-- A tick period, which cannot be zero. -/
structure TickPeriod where
  get : Span
  pos : 0 < get.nanos
deriving DecidableEq, Repr

/-- Maps instants to ticks and back at a fixed rate. -/
structure TickClock where
  baseTime : Timestamp
  baseTick : Tick
  period : TickPeriod
deriving DecidableEq, Repr

namespace TickClock

def new (start : Timestamp) (period : TickPeriod) : TickClock := ⟨start, .zero, period⟩

def tickAt (c : TickClock) (now : Timestamp) : Tick :=
  let elapsed := (now.since c.baseTime).nanos
  c.baseTick.saturatingAdd (min (elapsed / c.period.get.nanos) (2 ^ 32 - 1))

/-- When a tick begins, if it is not before the base and a `u64` holds it. -/
def startOf (c : TickClock) (tick : Tick) : Option Timestamp :=
  if tick.n < c.baseTick.n then none
  else
    let offset := (tick.n - c.baseTick.n) * c.period.get.nanos
    if 2 ^ 64 ≤ offset then none
    else if h : c.baseTime.nanos + offset < 2 ^ 64 then some ⟨c.baseTime.nanos + offset, h⟩ else none

/-- Rebases on the tick in progress. -/
def setPeriod (c : TickClock) (now : Timestamp) (period : TickPeriod) : TickClock :=
  let tick := c.tickAt now
  match c.startOf tick with
  | some start => ⟨start, tick, period⟩
  | none => { c with period }

/-! ## The tick in progress -/

/-- Whole periods since the base. -/
def elapsedTicks (c : TickClock) (now : Timestamp) : Nat := (now.nanos - c.baseTime.nanos) / c.period.get.nanos

theorem tickAt_n (c : TickClock) (now : Timestamp) :
    (c.tickAt now).n = min (c.baseTick.n + min (c.elapsedTicks now) (2 ^ 32 - 1)) (2 ^ 32 - 1) := rfl

/-- **The tick in progress has a start**, whatever the clock: it is no later
than the instant, if the base is not. -/
theorem startOf_tickAt (c : TickClock) (now : Timestamp) : ∃ start, c.startOf (c.tickAt now) = some start ∧
    (c.baseTime ≤ now → start ≤ now) ∧ c.setPeriod now = fun period => ⟨start, c.tickAt now, period⟩ := by
  have hbase := c.baseTime.lt
  have hnow := now.lt
  have hmul : c.elapsedTicks now * c.period.get.nanos ≤ now.nanos - c.baseTime.nanos := Nat.div_mul_le_self ..
  have hle : ((c.tickAt now).n - c.baseTick.n) * c.period.get.nanos ≤ now.nanos - c.baseTime.nanos := by
    refine Nat.le_trans (Nat.mul_le_mul_right _ ?_) hmul
    rw [tickAt_n]
    omega
  have hge : ¬ (c.tickAt now).n < c.baseTick.n := by
    have := c.baseTick.lt
    rw [tickAt_n]
    omega
  have hstart : c.startOf (c.tickAt now) =
      some ⟨c.baseTime.nanos + ((c.tickAt now).n - c.baseTick.n) * c.period.get.nanos, by omega⟩ := by
    rw [startOf, if_neg hge]
    dsimp only
    rw [if_neg (by omega), dif_pos (by omega)]
  refine ⟨_, hstart, ?_, ?_⟩
  · intro h
    rw [Timestamp.le_iff] at h ⊢
    show c.baseTime.nanos + ((c.tickAt now).n - c.baseTick.n) * c.period.get.nanos ≤ now.nanos
    omega
  · funext period
    rw [setPeriod, hstart]

/-- **When the tick in progress is kept**: when less of it has passed than the
new period, or there is no later one. -/
theorem tickAt_setPeriod_iff (c : TickClock) (now : Timestamp) (period : TickPeriod) {start : Timestamp}
    (hstart : c.startOf (c.tickAt now) = some start) : (c.setPeriod now period).tickAt now = c.tickAt now ↔
      (now.since start).nanos < period.get.nanos ∨ c.tickAt now = .max := by
  obtain ⟨start', hstart', -, hset⟩ := c.startOf_tickAt now
  obtain rfl := Option.some.inj (hstart.symm.trans hstart')
  have hlt := (c.tickAt now).lt
  have hzero : elapsedTicks ⟨start, c.tickAt now, period⟩ now = 0 ↔ (now.since start).nanos < period.get.nanos := by
    have hpos := period.pos
    rw [elapsedTicks, Timestamp.since_nanos, Nat.div_eq_zero_iff]
    dsimp only
    omega
  rw [hset, Tick.ext_iff, Tick.ext_iff, tickAt_n ⟨start, c.tickAt now, period⟩, ← hzero]
  show min ((c.tickAt now).n + min _ (2 ^ 32 - 1)) (2 ^ 32 - 1) = (c.tickAt now).n ↔
    _ ∨ (c.tickAt now).n = 2 ^ 32 - 1
  omega

/-! ## Calls in the order of time -/

theorem tickAt_mono (c : TickClock) {now later : Timestamp} (h : now ≤ later) : c.tickAt now ≤ c.tickAt later := by
  rw [Timestamp.le_iff] at h
  have hdiv : c.elapsedTicks now ≤ c.elapsedTicks later := Nat.div_le_div_right (Nat.sub_le_sub_right h _)
  rw [Tick.le_iff, tickAt_n, tickAt_n]
  omega

theorem le_tickAt_setPeriod (c : TickClock) (now : Timestamp) (period : TickPeriod) :
    c.tickAt now ≤ (c.setPeriod now period).tickAt now := by
  obtain ⟨start, -, -, hset⟩ := c.startOf_tickAt now
  have hlt := (c.tickAt now).lt
  rw [hset, Tick.le_iff, tickAt_n ⟨start, c.tickAt now, period⟩]
  dsimp only
  omega

end TickClock

inductive TickCall
  | tickAt (now : Timestamp)
  | setPeriod (now : Timestamp) (period : TickPeriod)

def TickCall.time : TickCall → Timestamp
  | .tickAt now => now
  | .setPeriod now _ => now

namespace TickClock

/-- The ticks a run of calls observes. -/
def ticks (c : TickClock) : List TickCall → List Tick
  | [] => []
  | .tickAt now :: calls => c.tickAt now :: c.ticks calls
  | .setPeriod now period :: calls => (c.setPeriod now period).ticks calls

/-- What is observed from `now` on is the tick at `now`, or a later one. -/
theorem ticks_ge (c : TickClock) {now : Timestamp} {calls : List TickCall}
    (hcalls : ((now :: calls.map TickCall.time)).Pairwise (· ≤ ·)) : ∀ tick ∈ c.ticks calls, c.tickAt now ≤ tick := by
  induction calls generalizing c now with
  | nil => simp [ticks]
  | cons call calls ih =>
    simp only [List.map_cons, List.pairwise_cons, List.mem_cons] at hcalls
    obtain ⟨hnow, hcall, hrest⟩ := hcalls
    cases call with
    | tickAt at_ =>
      intro tick htick
      rcases List.mem_cons.1 htick with rfl | htick
      · exact c.tickAt_mono (hnow _ (.inl rfl))
      · exact ih c (List.pairwise_cons.2 ⟨fun t ht => hnow t (.inr ht), hrest⟩) tick htick
    | setPeriod at_ period =>
      intro tick htick
      have hlater := ih (c.setPeriod at_ period) (List.pairwise_cons.2 ⟨hcall, hrest⟩) tick htick
      exact Tick.le_trans (c.tickAt_mono (hnow _ (.inl rfl))) (Tick.le_trans (c.le_tickAt_setPeriod at_ period) hlater)

/-- **No tick is observed after a later one.** -/
theorem ticks_sorted (c : TickClock) {calls : List TickCall} (hcalls : (calls.map TickCall.time).Pairwise (· ≤ ·)) :
    (c.ticks calls).Pairwise (· ≤ ·) := by
  induction calls generalizing c with
  | nil => exact List.Pairwise.nil
  | cons call calls ih =>
    have hrest := (List.pairwise_cons.1 hcalls).2
    cases call with
    | tickAt now => exact List.pairwise_cons.2 ⟨c.ticks_ge hcalls, ih c hrest⟩
    | setPeriod now period => exact ih _ hrest

/-- **A change of rate repeats no tick, and skips none exactly when less of the
tick in progress has passed than the new period**, or there is no later tick. -/
theorem set_period_keeps_tick (c : TickClock) :
    (∀ (now : Timestamp) (period : TickPeriod), c.baseTime ≤ now →
      ∃ start, c.startOf (c.tickAt now) = some start ∧ start ≤ now ∧
        ((c.setPeriod now period).tickAt now = c.tickAt now ↔
          (now.since start).nanos < period.get.nanos ∨ c.tickAt now = .max)) ∧
    ∀ calls : List TickCall, (calls.map TickCall.time).Pairwise (· ≤ ·) → (c.ticks calls).Pairwise (· ≤ ·) := by
  refine ⟨?_, fun calls => c.ticks_sorted⟩
  intro now period hbase
  obtain ⟨start, hstart, hle, -⟩ := c.startOf_tickAt now
  exact ⟨start, hstart, hle hbase, c.tickAt_setPeriod_iff now period hstart⟩

/-- Ten ticks a second, from the origin on. -/
def tenHz : TickClock := .new .zero ⟨⟨100000000, by decide⟩, by decide⟩

/-- Ninety milliseconds into a tick of a hundred, and slowed to two hundred. -/
theorem set_period_keeps_tick_slower :
    let now : Timestamp := ⟨90000000, by decide⟩
    let period : TickPeriod := ⟨⟨200000000, by decide⟩, by decide⟩
    (tenHz.setPeriod now period).tickAt now = tenHz.tickAt now ∧
      (tenHz.ticks [.tickAt now, .setPeriod now period, .tickAt now]).Pairwise (· ≤ ·) := by
  intro now period
  obtain ⟨hkept, hsorted⟩ := set_period_keeps_tick tenHz
  obtain ⟨start, hstart, -, hiff⟩ := hkept now period (by decide)
  refine ⟨hiff.2 (.inl ?_), hsorted _ (by decide)⟩
  obtain rfl : start = .zero := Option.some.inj (hstart.symm.trans (by decide))
  decide

/-- **Ticks are skipped**: ninety milliseconds into tick 0 the rate is raised to
a hundred a second, and the clock is at tick 9. -/
theorem ticks_skipped :
    let now : Timestamp := ⟨90000000, by decide⟩
    let period : TickPeriod := ⟨⟨10000000, by decide⟩, by decide⟩
    tenHz.baseTime ≤ now ∧ tenHz.startOf (tenHz.tickAt now) = some .zero ∧ (tenHz.tickAt now).n = 0 ∧
      ((tenHz.setPeriod now period).tickAt now).n = 9 := by
  decide

end TickClock
end HexNet
