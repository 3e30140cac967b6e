/-
The round-trip estimate (`ack.rs`) over whole histories of samples.

`WindowedMin` keeps two halves and rolls when a sample comes at least half a
window after the current half began. What it reports is the minimum of every
sample since the half before the current one began, which is all of the last
half window; but a half lasts until a sample happens to end it, so it may have
begun more than a window ago (`stale_minimum`).

The estimate itself cannot be pushed outside what was measured, whatever delays
the peer reports: a corrected sample is taken only down to the minimum.
-/
import HexNet.Ack
import HexNet.Lib.Lts
import Mathlib.Data.List.Induction

namespace HexNet.Ack

/-! ## The windowed minimum -/

/-- A round trip and when it was measured. -/
structure Sample where
  time : Timestamp
  value : Span
  deriving DecidableEq

/-- A windowed minimum with the samples it was given, newest last, and when the
half before the current one began. -/
structure Sampled (window : Nat) where
  minimum : WindowedMin window
  samples : List Sample
  began : Timestamp
  now : Timestamp

namespace Sampled

variable {window : Nat}

def new (x : Sample) : Sampled window := ⟨.new x.time x.value, [x], x.time, x.time⟩

def after (s : Sampled window) (x : Sample) : Sampled window where
  minimum := s.minimum.update x.time x.value
  samples := s.samples ++ [x]
  began := if window / 2 ≤ (x.time.since s.minimum.epoch).nanos then s.minimum.epoch else s.began
  now := x.time

/-- Samples at times that do not decrease. -/
def sys (window : Nat) : Lts.Sys (Sampled window) Sample where
  start s := ∃ x, s = new x
  step s x s' := s.now ≤ x.time ∧ s' = s.after x

/-- `m` is the least of `l`. -/
def IsLeast (m : Span) (l : List Sample) : Prop := (∃ x ∈ l, x.value = m) ∧ ∀ x ∈ l, m ≤ x.value

/-- What is reported is the minimum of some samples: all those of the last half
window, and none older than the window. -/
def Covers (s : Sampled window) : Prop :=
  ∃ kept, (∀ x ∈ kept, x ∈ s.samples) ∧ IsLeast s.minimum.get kept ∧
    (∀ x ∈ s.samples, (s.now.since x.time).nanos ≤ window / 2 → x ∈ kept) ∧
    ∀ x ∈ kept, (s.now.since x.time).nanos ≤ window

theorem IsLeast.append {m m' : Span} {l l' : List Sample} (h : IsLeast m l) (h' : IsLeast m' l') :
    IsLeast (m.min m') (l ++ l') := by
  obtain ⟨⟨x, hx, hm⟩, hle⟩ := h
  obtain ⟨⟨x', hx', hm'⟩, hle'⟩ := h'
  refine ⟨?_, fun y hy => ?_⟩
  · unfold Span.min
    split
    · exact ⟨x, List.mem_append_left _ hx, hm⟩
    · exact ⟨x', List.mem_append_right _ hx', hm'⟩
  · rw [Span.le_iff, Span.min_nanos]
    rcases List.mem_append.1 hy with hy | hy
    · exact Nat.le_trans (Nat.min_le_left _ _) (hle y hy)
    · exact Nat.le_trans (Nat.min_le_right _ _) (hle' y hy)

theorem isLeast_one (x : Sample) : IsLeast x.value [x] := by
  refine ⟨⟨x, List.mem_singleton_self x, rfl⟩, fun y hy => ?_⟩
  rw [List.mem_singleton.1 hy]
  exact Nat.le_refl _

theorem IsLeast.swap {m : Span} {l l' : List Sample} (h : IsLeast m (l ++ l')) : IsLeast m (l' ++ l) := by
  unfold IsLeast at h ⊢
  simp only [List.mem_append, or_comm] at h ⊢
  exact h

/-- The samples by halves: the current one since the epoch, the previous one
since `began`, and everything earlier. -/
structure Halved (s : Sampled window) (older previous current : List Sample) : Prop where
  samples_eq : s.samples = older ++ (previous ++ current)
  past : ∀ x ∈ s.samples, x.time ≤ s.now
  /-- The current half has begun, and has not ended. -/
  epoch_le : s.minimum.epoch ≤ s.now
  lasts : s.now.nanos < s.minimum.epoch.nanos + window / 2
  began_le : s.began ≤ s.minimum.epoch
  current_time : ∀ x ∈ current, s.minimum.epoch ≤ x.time
  previous_time : ∀ x ∈ previous, s.began ≤ x.time ∧ x.time < s.minimum.epoch
  older_time : ∀ x ∈ older, x.time < s.began ∧ s.began.nanos + window / 2 ≤ s.minimum.epoch.nanos
  current_least : IsLeast s.minimum.current current
  least : IsLeast s.minimum.get (previous ++ current)

theorem new_halved (hwindow : 1 < window) (x : Sample) : (new x : Sampled window).Halved [] [] [x] where
  samples_eq := rfl
  past y hy := by
    rw [List.mem_singleton.1 hy]
    exact Nat.le_refl _
  epoch_le := Nat.le_refl _
  lasts := Nat.lt_add_of_pos_right (by omega)
  began_le := Nat.le_refl _
  current_time y hy := by
    rw [List.mem_singleton.1 hy]
    exact Nat.le_refl _
  previous_time _ hy := (nomatch hy)
  older_time _ hy := (nomatch hy)
  current_least := isLeast_one x
  least := by
    have hget : (new x : Sampled window).minimum.get = x.value := Span.ext (by simp [new, WindowedMin.get, WindowedMin.new])
    rw [hget]
    exact isLeast_one x

theorem Halved.past_after {s : Sampled window} {older previous current : List Sample} (h : s.Halved older previous current)
    {x : Sample} (hx : s.now ≤ x.time) : ∀ y ∈ (s.after x).samples, y.time ≤ x.time := by
  intro y hy
  rcases List.mem_append.1 hy with hy | hy
  · exact Nat.le_trans (h.past y hy) hx
  · rw [List.mem_singleton.1 hy]
    exact Nat.le_refl _

/-- Half a window after its start a period ends, and the sample begins the next. -/
theorem Halved.rolls (hwindow : 1 < window) {s : Sampled window} {older previous current : List Sample}
    (h : s.Halved older previous current) {x : Sample} (hx : s.now ≤ x.time)
    (hroll : window / 2 ≤ (x.time.since s.minimum.epoch).nanos) :
    (s.after x).Halved (older ++ previous) current [x] := by
  have hepoch := h.epoch_le
  have hbegan := h.began_le
  have hlasts := h.lasts
  have hpast := h.past_after hx
  rw [Timestamp.le_iff] at hx hepoch hbegan
  have hsince : (x.time.since s.minimum.epoch).nanos = x.time.nanos - s.minimum.epoch.nanos := rfl
  have hminimum : (s.after x).minimum = ⟨x.value, s.minimum.current, x.time⟩ := if_pos hroll
  have hstart : (s.after x).began = s.minimum.epoch := if_pos hroll
  have hcurrent : ∀ y ∈ current, y.time.nanos ≤ s.now.nanos := fun y hy =>
    h.past y (by rw [h.samples_eq]; exact List.mem_append_right _ (List.mem_append_right _ hy))
  have hends : s.minimum.epoch.nanos + window / 2 ≤ x.time.nanos := by omega
  refine ⟨?_, hpast, ?_, ?_, ?_, ?_, fun y hy => ?_, fun y hy => ?_, ?_, ?_⟩
  · show s.samples ++ [x] = _
    rw [h.samples_eq]
    simp
  · rw [hminimum]
    exact Nat.le_refl _
  · rw [hminimum]
    exact Nat.lt_add_of_pos_right (by omega)
  · rw [hstart, hminimum]
    exact Nat.le_trans hepoch hx
  · intro y hy
    rw [hminimum, List.mem_singleton.1 hy]
    exact Nat.le_refl _
  · rw [hstart, hminimum]
    have hbefore : y.time.nanos < x.time.nanos := Nat.lt_of_le_of_lt (hcurrent y hy) (by omega)
    exact ⟨h.current_time y hy, hbefore⟩
  · rw [hstart, hminimum]
    refine ⟨?_, hends⟩
    rcases List.mem_append.1 hy with hy | hy
    · exact Nat.lt_of_lt_of_le (h.older_time y hy).1 hbegan
    · exact (h.previous_time y hy).2
  · rw [hminimum]
    exact isLeast_one x
  · rw [hminimum]
    exact ((isLeast_one x).append h.current_least).swap

/-- Before that the sample joins the period. -/
theorem Halved.stays {s : Sampled window} {older previous current : List Sample} (h : s.Halved older previous current)
    {x : Sample} (hx : s.now ≤ x.time) (hroll : ¬ window / 2 ≤ (x.time.since s.minimum.epoch).nanos) :
    (s.after x).Halved older previous (current ++ [x]) := by
  have hepoch := h.epoch_le
  have hbegan := h.began_le
  have hpast := h.past_after hx
  rw [Timestamp.le_iff] at hx hepoch hbegan
  have hsince : (x.time.since s.minimum.epoch).nanos = x.time.nanos - s.minimum.epoch.nanos := rfl
  have hminimum : (s.after x).minimum = { s.minimum with current := s.minimum.current.min x.value } := if_neg hroll
  have hstart : (s.after x).began = s.began := if_neg hroll
  have hget : (s.after x).minimum.get = s.minimum.get.min x.value := by
    rw [hminimum]
    refine Span.ext ?_
    simp only [WindowedMin.get, Span.min_nanos]
    omega
  refine ⟨?_, hpast, ?_, ?_, ?_, fun y hy => ?_, ?_, ?_, ?_, ?_⟩
  · show s.samples ++ [x] = _
    rw [h.samples_eq]
    simp
  · rw [hminimum]
    exact Nat.le_trans hepoch hx
  · rw [hminimum]
    show x.time.nanos < s.minimum.epoch.nanos + window / 2
    omega
  · rw [hstart, hminimum]
    exact hbegan
  · rw [hminimum]
    rcases List.mem_append.1 hy with hy | hy
    · exact h.current_time y hy
    · rw [List.mem_singleton.1 hy]
      exact Nat.le_trans hepoch hx
  · rw [hstart, hminimum]
    exact h.previous_time
  · rw [hstart, hminimum]
    exact h.older_time
  · rw [hminimum]
    exact h.current_least.append (isLeast_one x)
  · rw [hget, ← List.append_assoc]
    exact h.least.append (isLeast_one x)

/-- **One sample**: it joins the current half, or ends it and begins the next. -/
theorem Halved.after (hwindow : 1 < window) {s : Sampled window} {older previous current : List Sample}
    (h : s.Halved older previous current) {x : Sample} (hx : s.now ≤ x.time) :
    (s.after x).Halved older previous (current ++ [x]) ∨ (s.after x).Halved (older ++ previous) current [x] := by
  by_cases hroll : window / 2 ≤ (x.time.since s.minimum.epoch).nanos
  · exact .inr (h.rolls hwindow hx hroll)
  · exact .inl (h.stays hx hroll)

theorem reachable_halved (hwindow : 1 < window) {s : Sampled window} (h : Lts.Reachable (sys window) s) :
    ∃ older previous current, s.Halved older previous current := by
  refine Lts.Reach.invariant (P := fun s => ∃ older previous current, s.Halved older previous current) ?_ ?_ h
  · rintro _ ⟨x, rfl⟩
    exact ⟨[], [], [x], new_halved hwindow x⟩
  · rintro s x _ - ⟨older, previous, current, hs⟩ - ⟨hx, rfl⟩
    rcases hs.after hwindow hx with hs | hs
    · exact ⟨_, _, _, hs⟩
    · exact ⟨_, _, _, hs⟩

/-- **The windowed minimum covers its window** after every sample, while the
half before the current one began no longer than a window ago. -/
theorem minimum_covers (hwindow : 1 < window) {s : Sampled window} (h : Lts.Reachable (sys window) s)
    (hfresh : (s.now.since s.began).nanos ≤ window) : s.Covers := by
  obtain ⟨older, previous, current, hs⟩ := reachable_halved hwindow h
  have hbegan := hs.began_le
  have hepoch := hs.epoch_le
  rw [Timestamp.le_iff] at hbegan hepoch
  rw [Timestamp.since_nanos] at hfresh
  refine ⟨previous ++ current, fun x hx => ?_, hs.least, fun x hx hage => ?_, fun x hx => ?_⟩
  · rw [hs.samples_eq]
    exact List.mem_append_right _ hx
  · rw [hs.samples_eq] at hx
    refine (List.mem_append.1 hx).resolve_left fun hold => ?_
    obtain ⟨hbefore, hends⟩ := hs.older_time x hold
    rw [Timestamp.lt_iff] at hbefore
    rw [Timestamp.since_nanos] at hage
    omega
  · rw [Timestamp.since_nanos]
    have hsince : s.began.nanos ≤ x.time.nanos := by
      rcases List.mem_append.1 hx with hx | hx
      · exact (hs.previous_time x hx).1
      · exact Nat.le_trans hbegan (hs.current_time x hx)
    omega

def atMillis (millis value : Nat) : Sample := ⟨⟨millis % 2 ^ 32 * 1000000, by omega⟩, Span.fromMillis value⟩

/-- A sample each fifth of a second, the first the shortest. -/
def everyFifth : Sampled recentRttWindow :=
  (((new (atMillis 0 1)).after (atMillis 200 5)).after (atMillis 400 5)).after (atMillis 600 5)

theorem everyFifth_reachable : Lts.Reachable (sys recentRttWindow) everyFifth :=
  .step (.step (.step (.start ⟨_, rfl⟩) trivial ⟨by decide, rfl⟩) trivial ⟨by decide, rfl⟩) trivial ⟨by decide, rfl⟩

/-- The third sample ends the first half, and nothing is old yet. -/
theorem minimum_covers_rolled :
    Covers (((new (atMillis 0 1) : Sampled recentRttWindow).after (atMillis 200 5)).after (atMillis 400 5)) :=
  minimum_covers (by decide) (.step (.step (.start ⟨_, rfl⟩) trivial ⟨by decide, rfl⟩) trivial ⟨by decide, rfl⟩)
    (by decide)

/-- **The reported minimum can be older than the window**: the third sample ends
a half that the first began, and the fourth finds it still there. -/
theorem stale_minimum : ∃ s : Sampled recentRttWindow, Lts.Reachable (sys recentRttWindow) s ∧ ¬ s.Covers := by
  refine ⟨everyFifth, everyFifth_reachable, ?_⟩
  rintro ⟨kept, hkept, ⟨⟨x, hx, hvalue⟩, -⟩, -, hfresh⟩
  have hold : ∀ y ∈ everyFifth.samples, y.value = everyFifth.minimum.get →
      recentRttWindow < (everyFifth.now.since y.time).nanos := by decide
  exact Nat.not_le_of_lt (hold x (hkept x hx) hvalue) (hfresh x hx)

end Sampled

/-! ## The estimate -/

/-- A round trip as it is given to the estimate: its time, and the delay the
peer reported. -/
structure Measured where
  now : Timestamp
  sample : Span
  ackDelay : Span

/-- The estimate after `us`, in order, from a reset. -/
def Rtt.after (us : List Measured) : Rtt := us.foldl (fun r u => r.update u.now u.sample u.ackDelay) .default

/-- A duration within `lo` and `hi`. -/
def Between (lo hi : Nat) (d : Span) : Prop := lo ≤ d.nanos ∧ d.nanos ≤ hi

namespace Estimate

/-- The sample less the peer's delay, where that is not below the minimum. -/
def adjusted (e : Estimate) (u : Measured) : Span :=
  let corrected := u.sample.saturatingSub u.ackDelay
  if (e.min.update u.now u.sample).get ≤ corrected then corrected else u.sample

def deviation (e : Estimate) (u : Measured) : Span := (e.adjusted u).absDiff e.smoothed

/-- The two sums of an update are numbers of 64 bits. -/
def Fits (e : Estimate) (u : Measured) : Prop :=
  e.variation.nanos * 3 + (e.deviation u).nanos < 2 ^ 64 ∧ e.smoothed.nanos * 7 + (e.adjusted u).nanos < 2 ^ 64

/-- Everything the estimate keeps is within what was measured. -/
structure Bounded (lo hi : Nat) (e : Estimate) : Prop where
  smoothed : Between lo hi e.smoothed
  variation : e.variation.nanos ≤ hi
  min : Between lo hi e.min.current ∧ Between lo hi e.min.previous
  recent : Between lo hi e.recent.current ∧ Between lo hi e.recent.previous

end Estimate

section

variable {lo hi : Nat} {window : Nat}

theorem Between.min {a b : Span} (ha : Between lo hi a) (hb : Between lo hi b) :
    Between lo hi (a.min b) := by
  unfold Span.min
  split
  · exact ha
  · exact hb

theorem WindowedMin.update_within {w : WindowedMin window}
    (h : Between lo hi w.current ∧ Between lo hi w.previous) (now : Timestamp) {sample : Span}
    (hs : Between lo hi sample) :
    Between lo hi (w.update now sample).current ∧ Between lo hi (w.update now sample).previous := by
  unfold WindowedMin.update
  split
  · exact ⟨hs, h.1⟩
  · exact ⟨h.1.min hs, h.2⟩

namespace Estimate

variable {e : Estimate} {u : Measured}

/-- No reported delay takes a sample out of what was measured. -/
theorem Bounded.adjusted (h : e.Bounded lo hi) (hu : Between lo hi u.sample) : Between lo hi (e.adjusted u) := by
  obtain ⟨hcurrent, hprevious⟩ := WindowedMin.update_within h.min u.now hu
  have hleast := hcurrent.min hprevious
  unfold Estimate.adjusted
  dsimp only
  split
  next hle =>
    refine ⟨Nat.le_trans hleast.1 hle, ?_⟩
    have hsample := hu.2
    rw [Span.saturatingSub_nanos]
    omega
  · exact hu

theorem Bounded.deviation (h : e.Bounded lo hi) (hu : Between lo hi u.sample) : (e.deviation u).nanos ≤ hi := by
  have hadjusted := (h.adjusted hu).2
  have hsmoothed := h.smoothed.2
  unfold Estimate.deviation Span.absDiff
  dsimp only
  omega

theorem Bounded.fits (hhi : hi < 2 ^ 61) (h : e.Bounded lo hi) (hu : Between lo hi u.sample) : e.Fits u := by
  have hdeviation := h.deviation hu
  have hvariation := h.variation
  have hadjusted := (h.adjusted hu).2
  have hsmoothed := h.smoothed.2
  unfold Fits
  omega

end Estimate

/-- **One sample** keeps the estimate within what was measured. -/
theorem Estimate.Bounded.update (hhi : hi < 2 ^ 61) {e : Estimate} {u : Measured} (h : e.Bounded lo hi)
    (hu : Between lo hi u.sample) :
    ∃ e', (Rtt.mk (some e)).update u.now u.sample u.ackDelay = ⟨some e'⟩ ∧ e'.Bounded lo hi := by
  obtain ⟨hvariation, hsmoothed⟩ := h.fits hhi hu
  have hdeviation := h.deviation hu
  have hadjusted := h.adjusted hu
  have hold := h.smoothed
  have hoscillates := h.variation
  refine ⟨_, rfl, ⟨?_, ?_⟩, ?_, WindowedMin.update_within h.min u.now hu, WindowedMin.update_within h.recent u.now hu⟩
  · show lo ≤ (e.smoothed.nanos * 7 + (e.adjusted u).nanos) % 2 ^ 64 / 8
    rw [Nat.mod_eq_of_lt hsmoothed]
    have hlo := hold.1
    have hlo' := hadjusted.1
    omega
  · show (e.smoothed.nanos * 7 + (e.adjusted u).nanos) % 2 ^ 64 / 8 ≤ hi
    rw [Nat.mod_eq_of_lt hsmoothed]
    have hhi := hold.2
    have hhi' := hadjusted.2
    omega
  · show (e.variation.nanos * 3 + (e.deviation u).nanos) % 2 ^ 64 / 4 ≤ hi
    rw [Nat.mod_eq_of_lt hvariation]
    omega

theorem Rtt.first_bounded {u : Measured} (hu : Between lo hi u.sample) :
    ∃ e, Rtt.default.update u.now u.sample u.ackDelay = ⟨some e⟩ ∧ e.Bounded lo hi := by
  refine ⟨_, rfl, hu, ?_, ⟨hu, hu⟩, ⟨hu, hu⟩⟩
  have hhi := hu.2
  show Min.min (u.sample.nanos * 1) (2 ^ 64 - 1) / 2 ≤ hi
  omega

theorem Rtt.after_bounded (hhi : hi < 2 ^ 61) {us : List Measured} (hus : ∀ u ∈ us, Between lo hi u.sample) :
    (us = [] ∧ Rtt.after us = .default) ∨ ∃ e, Rtt.after us = ⟨some e⟩ ∧ e.Bounded lo hi := by
  induction us using List.reverseRecOn with
  | nil => exact .inl ⟨rfl, rfl⟩
  | append_singleton us u ih =>
    have hu := hus u (by simp)
    have hstep : Rtt.after (us ++ [u]) = (Rtt.after us).update u.now u.sample u.ackDelay := by simp [Rtt.after]
    rw [hstep]
    rcases ih (fun v hv => hus v (List.mem_append_left _ hv)) with ⟨-, heq⟩ | ⟨e, heq, hbounded⟩
    · rw [heq]
      exact .inr (Rtt.first_bounded hu)
    · rw [heq]
      exact .inr (hbounded.update hhi hu)

/-- **A peer cannot push the estimate outside what was measured.** After any
samples between `lo` and `hi`, at any times and with any delays reported, the
smoothed round trip and both minima are between them, the variation is at most
`hi`, and an update's sums do not overflow. Before the first sample there is no
estimate to push. -/
theorem estimate_within_measured (hhi : hi < 2 ^ 61) {us : List Measured}
    (hus : ∀ u ∈ us, Between lo hi u.sample) :
    (us ≠ [] → Between lo hi (Rtt.after us).smoothed ∧ (Rtt.after us).variation.nanos ≤ hi) ∧
      (∀ m, (Rtt.after us).min = some m → Between lo hi m) ∧
      (∀ m, (Rtt.after us).recentMin = some m → Between lo hi m) ∧
      ∀ e, (Rtt.after us).estimate = some e → ∀ u : Measured, Between lo hi u.sample → e.Fits u := by
  rcases Rtt.after_bounded hhi hus with ⟨rfl, heq⟩ | ⟨e, heq, h⟩
  · rw [heq]
    exact ⟨fun hne => absurd rfl hne, fun _ h => (nomatch h), fun _ h => (nomatch h), fun _ h => (nomatch h)⟩
  · rw [heq]
    refine ⟨fun _ => ⟨h.smoothed, h.variation⟩, ?_, ?_, ?_⟩
    · rintro _ ⟨⟩
      exact h.min.1.min h.min.2
    · rintro _ ⟨⟩
      exact h.recent.1.min h.recent.2
    · rintro _ ⟨⟩ u hu
      exact h.fits hhi hu

/-- Two samples, the second with a delay longer than itself. -/
def twoMeasured : List Measured :=
  [⟨.zero, Span.fromMillis 40, .zero⟩, ⟨.zero, Span.fromMillis 60, Span.fromMillis 100⟩]

theorem estimate_within_measured_two :
    Between 40000000 60000000 (Rtt.after twoMeasured).smoothed ∧
      (Rtt.after twoMeasured).variation.nanos ≤ 60000000 := by
  have hwithin : ∀ u ∈ twoMeasured, Between 40000000 60000000 u.sample := by
    intro u hu
    rcases List.mem_cons.1 hu with rfl | hu
    · exact ⟨by decide, by decide⟩
    · rw [List.mem_singleton.1 hu]
      exact ⟨by decide, by decide⟩
  exact (estimate_within_measured (by decide) hwithin).1 (by simp [twoMeasured])

end

end HexNet.Ack
