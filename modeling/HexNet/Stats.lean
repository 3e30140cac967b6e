/-
Performance figures (`stats.rs`): a log-linear histogram of `u64` values,
sixteen buckets to a doubling.

Its merge is exact because a histogram is a sum: recording a value merges in
the histogram of that value alone (`record_eq`), and merging is associative and
commutative, saturated counts included. So what was recorded counts, and not
where or in which order (`recordAll_new`).

The bucket array is one doubling short. A value's bucket is found from its
magnitude, of which there are sixty from four to sixty-three, and below them
stand the sixteen exact buckets: sixty-one rows, and the array has sixty
(`bucketOf_lt_iff`).
-/
import HexNet.Lib.Saturating
import Mathlib.Data.List.FinRange

namespace HexNet

def subbucketBits : Nat := 4

def subbuckets : Nat := 1 <<< subbucketBits

def majorBuckets : Nat := 64 - subbucketBits

/-- `BUCKETS`. -/
def bucketCount : Nat := majorBuckets * subbuckets

theorem subbuckets_eq : subbuckets = 16 := rfl

theorem bucketCount_eq : bucketCount = 960 := rfl

/-- `core::time::Duration`. -/
structure Duration where
  secs : UInt64
  subsecNanos : Nat
  lt : subsecNanos < 1000000000

def Duration.asNanos (d : Duration) : Nat := d.secs.toNat * 1000000000 + d.subsecNanos

/-- `count` wraps, as the release build's does. -/
@[ext] structure Histogram where
  buckets : Fin bucketCount → Saturating (2 ^ 32 - 1)
  count : UInt64
  sum : Saturating (2 ^ 64 - 1)
  min : UInt64
  max : UInt64

namespace Histogram

def new : Histogram := ⟨fun _ => 0, 0, 0, UInt64.ofNat (2 ^ 64 - 1), 0⟩

/-- Values below sixteen get an exact bucket each; above that, sixteen buckets
per doubling. -/
def bucketOf (value : UInt64) : Nat :=
  if value.toNat < subbuckets then value.toNat
  else
    let magnitude := value.toNat.log2
    let shift := magnitude - subbucketBits
    let sub := (value.toNat >>> shift) &&& (subbuckets - 1)
    (magnitude - subbucketBits + 1) * subbuckets + sub

def bucketStart (index : Nat) : UInt64 :=
  if index < subbuckets then UInt64.ofNat index
  else
    let major := index / subbuckets - 1
    let sub := index % subbuckets
    UInt64.ofNat ((subbuckets + sub) <<< major)

/-- `none` where the bucket is out of the array's range. -/
def record (h : Histogram) (value : UInt64) : Option Histogram :=
  if hin : bucketOf value < bucketCount then
    some {
      buckets := fun i => if i = ⟨bucketOf value, hin⟩ then h.buckets i + .of 1 else h.buckets i
      count := h.count + 1
      sum := h.sum + .of value.toNat
      min := Min.min h.min value
      max := Max.max h.max value }
  else none

/-- A duration beyond the range is recorded as the longest expressible. -/
def recordDuration (h : Histogram) (d : Duration) : Option Histogram :=
  h.record (UInt64.ofNat (Min.min d.asNanos (2 ^ 64 - 1)))

def merge (h other : Histogram) : Histogram where
  buckets i := h.buckets i + other.buckets i
  count := h.count + other.count
  sum := h.sum + other.sum
  min := Min.min h.min other.min
  max := Max.max h.max other.max

/-- The rank a quantile of `count` values asks for. A `q` that is not a number
asks for the first. -/
def target (count : UInt64) (q : Float) : Nat :=
  let q := if q < 0.0 then 0.0 else if 1.0 < q then 1.0 else q
  let rank := (count.toFloat * q).ceil
  (if 1.0 ≤ rank then rank else 1.0).toUInt64.toNat

/-- The scan for the first bucket with `target` values up to it. -/
def scan (h : Histogram) (target : Nat) : List (Fin bucketCount) → Nat → UInt64
  | [], _ => h.max
  | i :: is, seen =>
    let seen := seen + (h.buckets i).val
    if target ≤ seen then Max.max (bucketStart i) h.min else scan h target is seen

/-- The value of rank `target`, reported as its bucket's lower bound. -/
def atRank (h : Histogram) (target : Nat) : UInt64 := h.scan target (List.finRange bucketCount) 0

def quantile (h : Histogram) (q : Float) : UInt64 := if h.count = 0 then 0 else h.atRank (target h.count q)

def recordAll (h : Histogram) (values : List UInt64) : Option Histogram := values.foldlM record h

/-! ## Buckets -/

/-- The bits of a value its bucket does not tell. -/
def dropped (value : UInt64) : Nat := value.toNat.log2 - subbucketBits

/-- What is left of a value of sixteen or more is between sixteen and
thirty-two. -/
theorem kept_bounds {value : UInt64} (h : 16 ≤ value.toNat) :
    16 ≤ value.toNat / 2 ^ dropped value ∧ value.toNat / 2 ^ dropped value < 32 := by
  have hne : value.toNat ≠ 0 := by omega
  have hlow := Nat.log2_self_le hne
  have hhigh := Nat.lt_log2_self (n := value.toNat)
  have hlog : 4 ≤ value.toNat.log2 := (Nat.le_log2 hne).2 h
  have hsplit : value.toNat.log2 = 4 + dropped value := by
    unfold dropped subbucketBits
    omega
  rw [hsplit, Nat.pow_add] at hlow
  rw [hsplit, show 4 + dropped value + 1 = 5 + dropped value by omega, Nat.pow_add] at hhigh
  exact ⟨(Nat.le_div_iff_mul_le (Nat.two_pow_pos _)).2 hlow, (Nat.div_lt_iff_lt_mul (Nat.two_pow_pos _)).2 hhigh⟩

theorem dropped_small {value : UInt64} (h : value.toNat < 16) : dropped value = 0 := by
  unfold dropped subbucketBits
  by_cases hz : value.toNat = 0
  · simp [hz]
  · have := (Nat.log2_lt hz).2 (show value.toNat < 2 ^ 4 from h)
    omega

/-- **The index, in one formula**: sixteen for each bit dropped, and what is
left. -/
theorem bucketOf_eq (value : UInt64) : bucketOf value = 16 * dropped value + value.toNat / 2 ^ dropped value := by
  unfold bucketOf
  split
  next h =>
    have h : value.toNat < 16 := h
    simp [dropped_small h]
  next h =>
    have h : ¬ value.toNat < 16 := h
    obtain ⟨hlow, hhigh⟩ := kept_bounds (Nat.le_of_not_lt h)
    show (dropped value + 1) * 16 + (value.toNat >>> dropped value &&& 2 ^ 4 - 1) = _
    rw [Nat.and_two_pow_sub_one_eq_mod, Nat.shiftRight_eq_div_pow]
    omega

/-- A bucket starts at its values with the dropped bits zero. -/
theorem toNat_bucketStart_bucketOf (value : UInt64) :
    (bucketStart (bucketOf value)).toNat = value.toNat / 2 ^ dropped value * 2 ^ dropped value := by
  have hle := Nat.div_mul_le_self value.toNat (2 ^ dropped value)
  have hlt := value.toNat_lt
  rw [bucketOf_eq]
  unfold bucketStart
  rw [subbuckets_eq]
  by_cases h : value.toNat < 16
  · simp [dropped_small h, h]
  · obtain ⟨hlow, hhigh⟩ := kept_bounds (Nat.le_of_not_lt h)
    have hmajor : (16 * dropped value + value.toNat / 2 ^ dropped value) / 16 - 1 = dropped value := by omega
    have hsub : 16 + (16 * dropped value + value.toNat / 2 ^ dropped value) % 16 =
        value.toNat / 2 ^ dropped value := by
      omega
    rw [if_neg (by omega)]
    dsimp only
    rw [hmajor, hsub, Nat.shiftLeft_eq, UInt64.toNat_ofNat_of_lt' (Nat.lt_of_le_of_lt hle hlt)]

/-- A bucket's start is below its values, by a sixteenth at most. -/
theorem bucketStart_near (value : UInt64) : (bucketStart (bucketOf value)).toNat ≤ value.toNat ∧
    value.toNat - (bucketStart (bucketOf value)).toNat ≤ value.toNat / 16 := by
  have hmod := Nat.mod_add_div' value.toNat (2 ^ dropped value)
  rw [toNat_bucketStart_bucketOf]
  refine ⟨Nat.div_mul_le_self _ _, ?_⟩
  by_cases h : value.toNat < 16
  · simp [dropped_small h]
  · obtain ⟨hlow, -⟩ := kept_bounds (Nat.le_of_not_lt h)
    have hlt := Nat.mod_lt value.toNat (Nat.two_pow_pos (dropped value))
    have hpow : 16 * 2 ^ dropped value ≤ value.toNat := (Nat.le_div_iff_mul_le (Nat.two_pow_pos _)).1 hlow
    omega

theorem log2_mono {m n : Nat} (h : m ≤ n) : m.log2 ≤ n.log2 := by
  by_cases hm : m = 0
  · simp [hm]
  · exact (Nat.le_log2 (by omega)).2 (Nat.le_trans (Nat.log2_self_le hm) h)

theorem bucketOf_mono {v w : UInt64} (h : v ≤ w) : bucketOf v ≤ bucketOf w := by
  have hle : v.toNat ≤ w.toNat := UInt64.le_iff_toNat_le.1 h
  have hdrop : dropped v ≤ dropped w := Nat.sub_le_sub_right (log2_mono hle) _
  rw [bucketOf_eq, bucketOf_eq]
  rcases Nat.eq_or_lt_of_le hdrop with heq | hlt
  · rw [heq]
    exact Nat.add_le_add_left (Nat.div_le_div_right hle) _
  · -- more bits are dropped of `w`, so it has sixteen left at least
    have hw : 16 ≤ w.toNat := by
      by_contra hsmall
      have hzero : dropped w = 0 := dropped_small (by omega)
      omega
    have hkept := (kept_bounds hw).1
    have hv : v.toNat / 2 ^ dropped v < 32 := by
      by_cases hsmall : v.toNat < 16
      · rw [dropped_small hsmall]
        omega
      · exact (kept_bounds (Nat.le_of_not_lt hsmall)).2
    omega

/-- **The array covers half the range.** -/
theorem bucketOf_lt_iff (value : UInt64) : bucketOf value < bucketCount ↔ value.toNat < 2 ^ 63 := by
  have hlt := value.toNat_lt
  rw [bucketOf_eq, bucketCount_eq]
  by_cases h : value.toNat < 16
  · rw [dropped_small h]
    omega
  · obtain ⟨hlow, hhigh⟩ := kept_bounds (Nat.le_of_not_lt h)
    have hne : value.toNat ≠ 0 := by omega
    have hlog : 4 ≤ value.toNat.log2 := (Nat.le_log2 hne).2 (Nat.le_of_not_lt h)
    have hrange : value.toNat.log2 < 64 := (Nat.log2_lt hne).2 hlt
    have hdrop : dropped value = value.toNat.log2 - 4 := rfl
    rw [← Nat.log2_lt hne]
    omega

theorem record_isSome (h : Histogram) (value : UInt64) : (h.record value).isSome = true ↔ value.toNat < 2 ^ 63 := by
  rw [← bucketOf_lt_iff]
  unfold record
  split
  next hin => simp [hin]
  next hout => simp [hout]

/-- **A value has a bucket exactly when it is below `2 ^ 63`**: from there on
`record` and `record_duration` index past the array. -/
theorem recorded_below_half (h : Histogram) (value : UInt64) (d : Duration) :
    (bucketOf value < bucketCount ↔ value.toNat < 2 ^ 63) ∧
    ((h.record value).isSome = true ↔ value.toNat < 2 ^ 63) ∧
    ((h.recordDuration d).isSome = true ↔ d.asNanos < 2 ^ 63) := by
  refine ⟨bucketOf_lt_iff value, h.record_isSome value, ?_⟩
  have hcut : Min.min d.asNanos (2 ^ 64 - 1) < 2 ^ 64 := Nat.lt_of_le_of_lt (Nat.min_le_right _ _) (by decide)
  rw [recordDuration, record_isSome, UInt64.toNat_ofNat_of_lt' hcut]
  omega

/-- The first value without a bucket, and the longest duration. -/
theorem bucket_out_of_range : bucketOf (UInt64.ofNat (2 ^ 63)) = bucketCount ∧
    new.record (UInt64.ofNat (2 ^ 63)) = none ∧
    new.recordDuration ⟨UInt64.ofNat (2 ^ 64 - 1), 999999999, by decide⟩ = none := by
  refine ⟨by decide, ?_, ?_⟩
  · rw [record, dif_neg (by decide)]
  · rw [recordDuration, record, dif_neg (by decide)]

/-! ## Merging -/

@[simp] theorem toNat_min (a b : UInt64) : (Min.min a b).toNat = Min.min a.toNat b.toNat := by
  show (if a ≤ b then a else b).toNat = _
  split
  next h => rw [Nat.min_eq_left (UInt64.le_iff_toNat_le.1 h)]
  next h => rw [Nat.min_eq_right (Nat.le_of_not_le fun hle => h (UInt64.le_iff_toNat_le.2 hle))]

@[simp] theorem toNat_max (a b : UInt64) : (Max.max a b).toNat = Max.max a.toNat b.toNat := by
  show (if a ≤ b then b else a).toNat = _
  split
  next h => rw [Nat.max_eq_right (UInt64.le_iff_toNat_le.1 h)]
  next h => rw [Nat.max_eq_left (Nat.le_of_not_le fun hle => h (UInt64.le_iff_toNat_le.2 hle))]

theorem merge_assoc (a b c : Histogram) : (a.merge b).merge c = a.merge (b.merge c) := by
  refine Histogram.ext (funext fun i => add_assoc ..) (UInt64.add_assoc ..) (add_assoc ..) ?_ ?_
  · exact UInt64.toNat_inj.1 (by simp [merge, Nat.min_assoc])
  · exact UInt64.toNat_inj.1 (by simp [merge, Nat.max_assoc])

theorem merge_comm (a b : Histogram) : a.merge b = b.merge a := by
  refine Histogram.ext (funext fun i => add_comm ..) (UInt64.add_comm ..) (add_comm ..) ?_ ?_
  · exact UInt64.toNat_inj.1 (by simp [merge, Nat.min_comm])
  · exact UInt64.toNat_inj.1 (by simp [merge, Nat.max_comm])

theorem new_merge (h : Histogram) : new.merge h = h := by
  have hlt := h.min.toNat_lt
  refine Histogram.ext (funext fun i => zero_add _) (UInt64.zero_add _) (zero_add _) ?_ ?_
  · refine UInt64.toNat_inj.1 ?_
    simp [merge, new]
    omega
  · exact UInt64.toNat_inj.1 (by simp [merge, new])

/-- The histogram of one value. -/
def single (value : UInt64) : Histogram where
  buckets i := if i.val = bucketOf value then .of 1 else 0
  count := 1
  sum := .of value.toNat
  min := value
  max := value

/-- **Recording a value merges it in.** -/
theorem record_eq (h : Histogram) {value : UInt64} (hv : value.toNat < 2 ^ 63) :
    h.record value = some (h.merge (single value)) := by
  rw [record, dif_pos ((bucketOf_lt_iff value).2 hv)]
  refine congrArg some (Histogram.ext (funext fun i => ?_) rfl rfl rfl rfl)
  by_cases hi : i.val = bucketOf value
  · simp [merge, single, Fin.ext_iff, hi]
  · simp [merge, single, Fin.ext_iff, hi]

/-- The histogram of a sequence of values. -/
def ofValues (values : List UInt64) : Histogram := values.foldr (fun value h => (single value).merge h) new

theorem ofValues_append (xs ys : List UInt64) : ofValues (xs ++ ys) = (ofValues xs).merge (ofValues ys) := by
  induction xs with
  | nil => exact (new_merge _).symm
  | cons x xs ih =>
    show (single x).merge (ofValues (xs ++ ys)) = ((single x).merge (ofValues xs)).merge (ofValues ys)
    rw [ih, merge_assoc]

theorem ofValues_perm {xs ys : List UInt64} (h : xs.Perm ys) : ofValues xs = ofValues ys := by
  have hcomm : LeftCommutative fun (value : UInt64) h => (single value).merge h := ⟨fun v w h => by
    rw [← merge_assoc, ← merge_assoc, merge_comm (single v)]⟩
  exact h.foldr_eq new

theorem recordAll_eq (h : Histogram) {values : List UInt64} (hv : ∀ v ∈ values, v.toNat < 2 ^ 63) :
    h.recordAll values = some (h.merge (ofValues values)) := by
  induction values generalizing h with
  | nil =>
    rw [merge_comm]
    exact congrArg some (new_merge h).symm
  | cons v vs ih =>
    rw [recordAll, List.foldlM_cons, record_eq h (hv v List.mem_cons_self)]
    refine (ih _ fun w hw => hv w (List.mem_cons_of_mem v hw)).trans ?_
    rw [merge_assoc]
    rfl

theorem recordAll_new {values : List UInt64} (hv : ∀ v ∈ values, v.toNat < 2 ^ 63) :
    new.recordAll values = some (ofValues values) := by
  rw [recordAll_eq new hv, new_merge]

/-- **Merging is exact**: two recorders merged are one recorder of all the
values in any order, quantiles and all; and a bucket's start is below its
values by a sixteenth at most, the buckets being in the order of the values. -/
theorem merge_exact :
    (∀ xs ys zs : List UInt64, (∀ v ∈ xs, v.toNat < 2 ^ 63) → (∀ v ∈ ys, v.toNat < 2 ^ 63) → zs.Perm (xs ++ ys) →
      ∃ a b, new.recordAll xs = some a ∧ new.recordAll ys = some b ∧ new.recordAll zs = some (a.merge b) ∧
        ∀ whole q, new.recordAll zs = some whole → (a.merge b).quantile q = whole.quantile q) ∧
    (∀ v : UInt64, v.toNat < 2 ^ 63 → (bucketStart (bucketOf v)).toNat ≤ v.toNat ∧
      v.toNat - (bucketStart (bucketOf v)).toNat ≤ v.toNat / 16) ∧
    ∀ v w : UInt64, v ≤ w → w.toNat < 2 ^ 63 → bucketOf v ≤ bucketOf w := by
  refine ⟨?_, fun v _ => bucketStart_near v, fun v w h _ => bucketOf_mono h⟩
  intro xs ys zs hxs hys hperm
  have hzs : ∀ v ∈ zs, v.toNat < 2 ^ 63 := by
    intro v hv
    rcases List.mem_append.1 (hperm.mem_iff.1 hv) with h | h
    · exact hxs v h
    · exact hys v h
  have hwhole : new.recordAll zs = some ((ofValues xs).merge (ofValues ys)) := by
    rw [recordAll_new hzs, ofValues_perm hperm, ofValues_append]
  refine ⟨_, _, recordAll_new hxs, recordAll_new hys, hwhole, ?_⟩
  intro whole q heq
  rw [hwhole] at heq
  rw [Option.some.inj heq]

/-- Three values, two of them in one recorder. -/
theorem merge_exact_three :
    (∃ a b, new.recordAll [3, 1000] = some a ∧ new.recordAll [40] = some b ∧
      new.recordAll [40, 1000, 3] = some (a.merge b)) ∧
    (bucketStart (bucketOf 1000)).toNat = 992 ∧ 1000 - (bucketStart (bucketOf 1000)).toNat ≤ 1000 / 16 ∧
    bucketOf 40 ≤ bucketOf 1000 := by
  obtain ⟨a, b, ha, hb, hwhole, -⟩ := merge_exact.1 [3, 1000] [40] [40, 1000, 3] (by simp) (by simp) (by decide)
  exact ⟨⟨a, b, ha, hb, hwhole⟩, by decide, (merge_exact.2.1 1000 (by decide)).2,
    merge_exact.2.2 40 1000 (by decide) (by decide)⟩

/-! ## What a quantile says -/

/-- The totals are those of the values, the sum cut once. -/
theorem ofValues_totals (values : List UInt64) : (ofValues values).count = UInt64.ofNat values.length ∧
    (ofValues values).sum.val = Min.min (values.map UInt64.toNat).sum (2 ^ 64 - 1) := by
  have hsum : (ofValues values).sum = ((values.map UInt64.toNat).map Saturating.of).sum := by
    induction values with
    | nil => rfl
    | cons v vs ih =>
      show Saturating.of v.toNat + (ofValues vs).sum = _
      rw [ih, List.map_cons, List.map_cons, List.sum_cons]
  refine ⟨?_, by rw [hsum, Saturating.val_sum]⟩
  clear hsum
  induction values with
  | nil => rfl
  | cons v vs ih =>
    show 1 + (ofValues vs).count = UInt64.ofNat (vs.length + 1)
    rw [ih, UInt64.ofNat_add, UInt64.add_comm]
    rfl

theorem ofValues_bucket (values : List UInt64) (i : Fin bucketCount) :
    ((ofValues values).buckets i).val = Min.min (values.countP fun v => bucketOf v = i.val) (2 ^ 32 - 1) := by
  induction values with
  | nil => rfl
  | cons v vs ih =>
    show ((single v).buckets i + (ofValues vs).buckets i).val = _
    rw [Saturating.val_add, ih, List.countP_cons]
    by_cases h : i.val = bucketOf v
    · simp [single, h]
      omega
    · simp [single, h, Ne.symm h]

theorem ofValues_min_le {values : List UInt64} {v : UInt64} (h : v ∈ values) :
    (ofValues values).min.toNat ≤ v.toNat := by
  induction values with
  | nil => cases h
  | cons w ws ih =>
    show (Min.min w (ofValues ws).min).toNat ≤ v.toNat
    rw [toNat_min]
    rcases List.mem_cons.1 h with rfl | h
    · exact Nat.min_le_left ..
    · exact Nat.le_trans (Nat.min_le_right ..) (ih h)

theorem countP_lt_succ (values : List UInt64) (k : Nat) : values.countP (fun v => bucketOf v < k + 1) =
    values.countP (fun v => bucketOf v < k) + values.countP fun v => bucketOf v = k := by
  induction values with
  | nil => rfl
  | cons v vs ih =>
    simp only [List.countP_cons, ih, decide_eq_true_eq]
    split <;> split <;> split <;> omega

/-- The first `k` buckets hold the values below them. -/
theorem sum_buckets {values : List UInt64} (hfew : values.length < 2 ^ 32) {k : Nat} (hk : k ≤ bucketCount) :
    (((List.finRange bucketCount).take k).map fun i => ((ofValues values).buckets i).val).sum =
      values.countP fun v => bucketOf v < k := by
  induction k with
  | zero => simp
  | succ k ih =>
    have hlen : k < (List.finRange bucketCount).length := by rwa [List.length_finRange]
    have hcount := List.countP_le_length (p := fun v => decide (bucketOf v = k)) (l := values)
    rw [List.take_succ_eq_append_getElem hlen, List.map_append, List.sum_append, ih (by omega), countP_lt_succ]
    simp only [List.map_cons, List.map_nil, List.sum_singleton, ofValues_bucket, List.getElem_finRange, Fin.val_cast]
    omega

/-- Buckets that do not reach the target are passed over. -/
theorem scan_append (h : Histogram) {target : Nat} (is js : List (Fin bucketCount)) {seen : Nat}
    (hlt : seen + (is.map fun i => (h.buckets i).val).sum < target) :
    h.scan target (is ++ js) seen = h.scan target js (seen + (is.map fun i => (h.buckets i).val).sum) := by
  induction is generalizing seen with
  | nil => simp
  | cons i is ih =>
    simp only [List.map_cons, List.sum_cons, ← Nat.add_assoc] at hlt ⊢
    rw [List.cons_append, scan, if_neg (by omega)]
    exact ih hlt

/-- A value with fewer than `target` values below it, and `target` up to it, is
reported for that rank, less a sixteenth of it at most. -/
theorem atRank_near {values : List UInt64} (hv : ∀ v ∈ values, v.toNat < 2 ^ 63) (hfew : values.length < 2 ^ 32)
    {v : UInt64} (hmem : v ∈ values) {target : Nat} (hbelow : values.countP (fun w => w < v) < target)
    (hupto : target ≤ values.countP fun w => w ≤ v) :
    ((ofValues values).atRank target).toNat ≤ v.toNat ∧
      v.toNat - ((ofValues values).atRank target).toNat ≤ v.toNat / 16 := by
  have hin : bucketOf v < bucketCount := (bucketOf_lt_iff v).2 (hv v hmem)
  have hlen : bucketOf v < (List.finRange bucketCount).length := by simpa using hin
  -- the buckets before that of `v` hold values below it, and with its own all up to it
  have hbefore : values.countP (fun w => bucketOf w < bucketOf v) ≤ values.countP fun w => w < v := by
    refine List.countP_mono_left fun w _ h => ?_
    simp only [decide_eq_true_eq] at h ⊢
    refine Std.not_le.1 fun hle => ?_
    have := bucketOf_mono hle
    omega
  have hwith : (values.countP fun w => w ≤ v) ≤ values.countP fun w => bucketOf w < bucketOf v + 1 := by
    refine List.countP_mono_left fun w _ h => ?_
    simp only [decide_eq_true_eq] at h ⊢
    exact Nat.lt_succ_of_le (bucketOf_mono h)
  have hrank : (ofValues values).atRank target = Max.max (bucketStart (bucketOf v)) (ofValues values).min := by
    have hsum := sum_buckets hfew (Nat.le_of_lt hin)
    have hnext := sum_buckets (k := bucketOf v + 1) hfew hin
    rw [List.take_succ_eq_append_getElem hlen, List.map_append, List.sum_append] at hnext
    simp only [List.map_cons, List.map_nil, List.sum_singleton] at hnext
    rw [atRank, ← List.take_append_drop (bucketOf v) (List.finRange bucketCount), scan_append _ _ _ (by omega),
      List.drop_eq_getElem_cons hlen, scan, if_pos (by omega)]
    simp
  obtain ⟨hstart, hnear⟩ := bucketStart_near v
  have hmin := ofValues_min_le hmem
  rw [hrank, toNat_max]
  omega

/-- The value of a rank has fewer values below it, and as many up to it. -/
theorem rank_counts {sorted : List UInt64} (hsorted : sorted.Pairwise (· ≤ ·)) {k : Nat} {v : UInt64}
    (h : sorted[k]? = some v) :
    sorted.countP (fun w => w < v) < k + 1 ∧ k + 1 ≤ sorted.countP fun w => w ≤ v := by
  obtain ⟨hk, rfl⟩ := List.getElem?_eq_some_iff.1 h
  have hsplit : sorted = sorted.take k ++ sorted[k] :: sorted.drop (k + 1) := by
    rw [← List.drop_eq_getElem_cons hk, List.take_append_drop]
  have hlen : (sorted.take k).length = k := by rw [List.length_take]; omega
  generalize sorted[k] = v, sorted.take k = before, sorted.drop (k + 1) = after at hsplit hlen
  subst hsplit
  -- what stands before it is up to it, and nothing after it is below
  obtain ⟨-, hafter, hupto⟩ := List.pairwise_append.1 hsorted
  have hbelow : after.countP (fun w => w < v) = 0 := by
    refine List.countP_eq_zero.2 fun w hw => ?_
    simpa using List.rel_of_pairwise_cons hafter hw
  have hall : before.countP (fun w => w ≤ v) = before.length :=
    List.countP_eq_length.2 fun w hw => decide_eq_true (hupto w hw v List.mem_cons_self)
  have hle := List.countP_le_length (p := fun w => decide (w < v)) (l := before)
  rw [List.countP_append, List.countP_append, List.countP_cons, List.countP_cons, hbelow, hall]
  simp
  omega

/-- **A quantile never overstates, and understates by a sixteenth at most**: of
fewer than `2 ^ 32` values, so that no bucket is saturated, the one reported for
a rank is the one of that rank in order, less a sixteenth of it at most. -/
theorem quantile_near {values sorted : List UInt64} {h : Histogram} (hrecorded : new.recordAll values = some h)
    (hv : ∀ v ∈ values, v.toNat < 2 ^ 63) (hfew : values.length < 2 ^ 32) (hperm : sorted.Perm values)
    (hsorted : sorted.Pairwise (· ≤ ·)) {k : Nat} {v : UInt64} (hrank : sorted[k]? = some v) :
    (∀ q, h.quantile q = h.atRank (target h.count q)) ∧ (h.atRank (k + 1)).toNat ≤ v.toNat ∧
      v.toNat - (h.atRank (k + 1)).toNat ≤ v.toNat / 16 := by
  rw [recordAll_new hv] at hrecorded
  obtain rfl := Option.some.inj hrecorded
  have hmem : v ∈ values := hperm.mem_iff.1 (List.mem_of_getElem? hrank)
  obtain ⟨hbelow, hupto⟩ := rank_counts hsorted hrank
  rw [hperm.countP_eq] at hbelow hupto
  refine ⟨fun q => if_neg fun hzero => ?_, atRank_near hv hfew hmem hbelow hupto⟩
  have hcount := congrArg UInt64.toNat hzero
  rw [(ofValues_totals values).1, UInt64.toNat_ofNat_of_lt' (Nat.lt_trans hfew (by decide))] at hcount
  rw [List.eq_nil_of_length_eq_zero hcount] at hmem
  cases hmem

/-- Three values, and the one in the middle. -/
theorem quantile_near_middle : ∃ h, new.recordAll [1000, 3, 41] = some h ∧ (h.atRank 2).toNat ≤ 41 ∧
    41 - (h.atRank 2).toNat ≤ 41 / 16 := by
  have hv : ∀ v ∈ ([1000, 3, 41] : List UInt64), v.toNat < 2 ^ 63 := by simp
  have hperm : ([3, 41, 1000] : List UInt64).Perm [1000, 3, 41] := by decide
  obtain ⟨-, hnear⟩ := quantile_near (recordAll_new hv) hv (by decide) hperm (by decide) (k := 1) rfl
  simp only [Nat.reduceAdd, UInt64.reduceToNat] at hnear
  exact ⟨_, recordAll_new hv, hnear⟩

end Histogram
end HexNet
