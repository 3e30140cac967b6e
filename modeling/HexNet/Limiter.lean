/-
Runs of the handshake limiter's buckets (`endpoint.rs`).

A bucket's level and the whole intervals still ahead of its last refill make a
potential: a refill moves intervals into tokens and can only lose some when the
bucket fills, and a token spent lowers it by one. Since a refill leaves less
than an interval behind it, the potential after the first call of a run is one
bucket, one interval and what the run's own times hold, and that bounds every
token the run spends, in whatever order its times come.
-/
import HexNet.Endpoint

namespace HexNet

/-- A reservation asked of a bucket, and whether it is spent if given. -/
structure BucketCall where
  now : Timestamp
  spends : Bool

namespace Bucket

variable {policy : RefillPolicy}

/-! ## Calls -/

/-- A reservation: the refilled bucket, less its token if the reservation is
given and spent. -/
def called (b : Bucket policy) (call : BucketCall) : Bucket policy × Bool :=
  let refilled := b.refill call.now
  if refilled.ready && call.spends then (refilled.spend, true) else (refilled, false)

def spent : Bucket policy → List BucketCall → Nat
  | _, [] => 0
  | b, call :: calls => (b.called call).2.toNat + spent (b.called call).1 calls

/-- A call takes the token it spends from the refilled bucket, where it is. -/
theorem called_tokens (b : Bucket policy) (call : BucketCall) :
    (b.called call).1.tokens + (b.called call).2.toNat = (b.refill call.now).tokens ∧
      (b.called call).1.lastRefill = (b.refill call.now).lastRefill := by
  unfold called
  dsimp only
  split
  next hspends =>
    have hready : 0 < (b.refill call.now).tokens := of_decide_eq_true (Bool.and_eq_true_iff.1 hspends).1
    exact ⟨Nat.sub_add_cancel hready, rfl⟩
  · exact ⟨rfl, rfl⟩

/-! ## A refill -/

/-- Whole intervals since the last refill. -/
def intervals (b : Bucket policy) (now : Timestamp) : Nat :=
  (now.since b.lastRefill).nanos / policy.interval.nanos

/-- What a refill does: nothing within an interval, whole intervals while the
bucket has room for them, and otherwise a full bucket as of now. -/
inductive Refills (b : Bucket policy) (now : Timestamp) : Bucket policy → Prop
  | early {b'} : b.intervals now = 0 → b' = b → Refills b now b'
  | credited {b'} : 0 < b.intervals now → b'.tokens = b.tokens + b.intervals now →
      b'.lastRefill.nanos = b.lastRefill.nanos + policy.interval.nanos * b.intervals now → Refills b now b'
  | filled {b'} : 0 < b.intervals now → policy.burst ≤ b.tokens + b.intervals now → b'.tokens = policy.burst →
      b'.lastRefill = now → Refills b now b'

theorem intervals_mul_le (b : Bucket policy) (now : Timestamp) :
    policy.interval.nanos * b.intervals now ≤ now.nanos - b.lastRefill.nanos := Nat.mul_div_le ..

/-- An interval has passed only once the last refill has. -/
theorem lastRefill_le {b : Bucket policy} {now : Timestamp} (h : 0 < b.intervals now) : b.lastRefill ≤ now := by
  rw [Timestamp.le_iff]
  by_contra hback
  rw [intervals, Timestamp.since_nanos, Nat.sub_eq_zero_of_le (Nat.le_of_not_le hback), Nat.zero_div] at h
  exact Nat.lt_irrefl _ h

theorem refill_refills (hburst : policy.burst < 2 ^ 32) (b : Bucket policy) (now : Timestamp) :
    Refills b now (b.refill now) := by
  have hunfold : b.refill now =
      if b.intervals now = 0 then b
      else if h : b.intervals now < 2 ^ 32 ∧ b.intervals now < policy.burst - b.tokens then
        ⟨b.tokens + b.intervals now, b.lastRefill.saturatingAdd (policy.interval.saturatingMul (b.intervals now)),
          by have := b.le; omega⟩
      else ⟨policy.burst, now, le_refl _⟩ := rfl
  rw [hunfold]
  split
  next hnone => exact .early hnone rfl
  next hsome =>
    have hpos := Nat.pos_of_ne_zero hsome
    split
    next hroom =>
      refine .credited hpos rfl ?_
      -- neither the product nor the sum passes `now`
      have hwhole := b.intervals_mul_le now
      have hlast := lastRefill_le hpos
      have hlt := now.lt
      rw [Timestamp.le_iff] at hlast
      rw [Timestamp.saturatingAdd_nanos, Span.saturatingMul_nanos]
      omega
    next hroom => exact .filled hpos (by omega) rfl rfl

/-! ## The potential -/

/-- Tokens a bucket can still give by `hi`. -/
def potential (b : Bucket policy) (hi : Timestamp) : Nat := b.tokens + b.intervals hi

theorem called_potential (b : Bucket policy) (call : BucketCall) (hi : Timestamp) :
    (b.called call).1.potential hi + (b.called call).2.toNat = (b.refill call.now).potential hi := by
  obtain ⟨htokens, hlast⟩ := b.called_tokens call
  unfold potential intervals
  rw [hlast]
  omega

section
variable (hburst : policy.burst < 2 ^ 32)
include hburst

theorem le_refill_lastRefill (b : Bucket policy) (now : Timestamp) : b.lastRefill ≤ (b.refill now).lastRefill := by
  rw [Timestamp.le_iff]
  cases refill_refills hburst b now with
  | early _ h => rw [h]
  | credited _ _ hlast => omega
  | filled hpos _ _ hlast =>
    rw [hlast]
    exact lastRefill_le hpos

theorem refill_fresh (hinterval : 0 < policy.interval.nanos) (b : Bucket policy) (now : Timestamp) :
    now.nanos < (b.refill now).lastRefill.nanos + policy.interval.nanos := by
  cases refill_refills hburst b now with
  | early hnone h =>
    have hwithin := (Nat.div_eq_zero_iff_lt hinterval).1 hnone
    rw [Timestamp.since_nanos] at hwithin
    rw [h]
    omega
  | credited _ _ hlast =>
    have hrest := Nat.lt_mul_div_succ (now.nanos - b.lastRefill.nanos) hinterval
    rw [Nat.mul_add, Nat.mul_one] at hrest
    change _ < policy.interval.nanos * b.intervals now + _ at hrest
    omega
  | filled _ _ _ hlast =>
    rw [hlast]
    omega

theorem refill_potential (b : Bucket policy) {now hi : Timestamp} (h : now ≤ hi) :
    (b.refill now).potential hi ≤ b.potential hi := by
  unfold potential
  cases refill_refills hburst b now with
  | early _ h' => rw [h']
  | credited hpos htokens hlast =>
    have hmoved : (b.refill now).intervals hi = b.intervals hi - b.intervals now := by
      rw [intervals, Timestamp.since_nanos, hlast, ← Nat.sub_sub, Nat.sub_mul_div]
      rfl
    have hle : b.intervals now ≤ b.intervals hi :=
      Nat.div_le_div_right (Nat.sub_le_sub_right h _)
    omega
  | filled hpos hfull htokens hlast =>
    have hsum : (hi.nanos - now.nanos) / policy.interval.nanos + (now.nanos - b.lastRefill.nanos) / policy.interval.nanos ≤
        (hi.nanos - now.nanos + (now.nanos - b.lastRefill.nanos)) / policy.interval.nanos := Nat.div_add_div_le_add_div
    have hearlier := lastRefill_le hpos
    rw [Timestamp.le_iff] at h hearlier
    rw [show hi.nanos - now.nanos + (now.nanos - b.lastRefill.nanos) = hi.nanos - b.lastRefill.nanos by omega] at hsum
    change _ + b.intervals now ≤ b.intervals hi at hsum
    have hrest : (b.refill now).intervals hi = (hi.nanos - now.nanos) / policy.interval.nanos := by
      rw [intervals, hlast, Timestamp.since_nanos]
    omega

/-- The potential pays for the run. -/
theorem spent_le_potential {calls : List BucketCall} {hi : Timestamp} (h : ∀ call ∈ calls, call.now ≤ hi)
    (b : Bucket policy) : b.spent calls ≤ b.potential hi := by
  induction calls generalizing b with
  | nil => exact Nat.zero_le _
  | cons call calls ih =>
    have hrest := ih (fun c hc => h c (List.mem_cons_of_mem _ hc)) (b.called call).1
    have hcall := b.called_potential call hi
    have hrefill := refill_potential hburst b (h call (List.mem_cons_self ..))
    rw [spent]
    omega

/-- **A run within `[lo, hi]` spends a bucket, a token and what the time between
is worth**, at most. -/
theorem spent_le (hinterval : 0 < policy.interval.nanos) {calls : List BucketCall} {lo hi : Timestamp}
    (h : ∀ call ∈ calls, lo ≤ call.now ∧ call.now ≤ hi) (b : Bucket policy) :
    b.spent calls ≤ policy.burst + 1 + (hi.nanos - lo.nanos) / policy.interval.nanos := by
  cases calls with
  | nil => exact Nat.zero_le _
  | cons call calls =>
    obtain ⟨hlo, hhi⟩ := h call (List.mem_cons_self ..)
    have hrest := spent_le_potential hburst (fun c hc => (h c (List.mem_cons_of_mem _ hc)).2) (b.called call).1
    have hcall := b.called_potential call hi
    have hfresh := refill_fresh hburst hinterval b call.now
    have hlevel := (b.refill call.now).le
    have hahead : (b.refill call.now).intervals hi ≤ (hi.nanos - lo.nanos) / policy.interval.nanos + 1 := by
      rw [← Nat.add_div_right _ hinterval]
      refine Nat.div_le_div_right ?_
      rw [Timestamp.le_iff] at hlo
      rw [Timestamp.since_nanos]
      omega
    rw [spent]
    unfold potential at hcall hrest
    omega

end

end Bucket

/-! ## Both buckets -/

/-- A packet refused took no token of its address: the slot it was judged by is
at most refilled. -/
theorem RateLimiter.take_refused {l : RateLimiter} {now : Timestamp} {addr : SocketAddr}
    (h : (l.take now addr).2 = false) (i : Nat) :
    (l.take now addr).1.slots[i]? = l.slots[i]? ∨
      (l.take now addr).1.slots[i]? = l.slots[i]?.map (Bucket.refill · now) := by
  unfold take at h ⊢
  dsimp only at h ⊢
  generalize l.hasher (sourceKey addr) &&& l.mask = slot at h ⊢
  by_cases hready : ((l.slots.getD slot .full).refill now).ready
  · rw [if_pos hready] at h
    cases h
  · rw [if_neg hready]
    dsimp only
    by_cases hslot : slot = i
    · subst hslot
      rcases Nat.lt_or_ge slot l.slots.length with hin | hout
      · right
        rw [List.getElem?_set_self hin, List.getD_eq_getElem?_getD, List.getElem?_eq_getElem hin]
        rfl
      · left
        rw [List.set_eq_of_length_le hout]
    · left
      rw [List.getElem?_set_ne hslot]

/-- **The handshake limiter is bounded.** -/
theorem limiter_bounded {policy : RefillPolicy} (hburst : policy.burst < 2 ^ 32) (hinterval : 0 < policy.interval.nanos) :
    (∀ (b : Bucket policy) (call : BucketCall),
      (b.called call).1.tokens ≤ policy.burst ∧
      (b.called call).1.tokens + (b.called call).2.toNat = (b.refill call.now).tokens ∧
      b.lastRefill ≤ (b.called call).1.lastRefill) ∧
    (∀ (b : Bucket policy) (calls : List BucketCall) (lo hi : Timestamp),
      (∀ call ∈ calls, lo ≤ call.now ∧ call.now ≤ hi) →
      b.spent calls ≤ policy.burst + 1 + (hi.nanos - lo.nanos) / policy.interval.nanos) ∧
    ∀ (b : Bucket policy) (limiter : RateLimiter) (now : Timestamp) (sender : SocketAddr),
      (charge b limiter now sender).2.2 = false →
      (charge b limiter now sender).1 = b.refill now ∧
      ∀ i : Nat, (charge b limiter now sender).2.1.slots[i]? = limiter.slots[i]? ∨
        (charge b limiter now sender).2.1.slots[i]? = limiter.slots[i]?.map (Bucket.refill · now) := by
  refine ⟨fun b call => ?_, fun b calls lo hi h => b.spent_le hburst hinterval h, ?_⟩
  · obtain ⟨htokens, hlast⟩ := b.called_tokens call
    refine ⟨(b.called call).1.le, htokens, ?_⟩
    rw [hlast]
    exact b.le_refill_lastRefill hburst call.now
  · intro b limiter now sender h
    unfold charge at h ⊢
    dsimp only at h ⊢
    by_cases hready : (b.refill now).ready
    · rw [if_pos hready] at h ⊢
      cases htaken : (limiter.take now sender).2 with
      | true =>
        rw [htaken] at h
        cases h
      | false => exact ⟨rfl, RateLimiter.take_refused htaken⟩
    · rw [if_neg hready]
      exact ⟨rfl, fun _ => .inl rfl⟩

/-- Two packets of one address, the second at an earlier time, and one the
global bucket refuses. -/
theorem limiter_bounded_address :
    (Bucket.full : Bucket perAddress).spent [⟨⟨9, by decide⟩, true⟩, ⟨.zero, true⟩] ≤ 32 + 1 + 9 / 62500000 ∧
    (charge (⟨0, .zero, by decide⟩ : Bucket perAddress) (.new 1 fun _ => 0) .zero (.v4 0 0)).1.tokens = 0 := by
  obtain ⟨-, hspent, hrefused⟩ := limiter_bounded (show perAddress.burst < 2 ^ 32 by decide) (by decide)
  refine ⟨hspent _ _ .zero ⟨9, by decide⟩ (by decide), ?_⟩
  rw [(hrefused _ _ _ _ (by decide)).1]
  decide

end HexNet
