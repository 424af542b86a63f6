import Mathlib.Data.List.Induction
import Mathlib.Data.List.TakeWhile
import Mathlib.Data.Rat.Floor
import Mathlib.Tactic.Linarith
import Parseh.Lib.Run
import Parseh.Wire.Messages

/-!
# The verification rate limit (`parseh-verify`, `rate_limit.rs`)

Two deques of times, one of observed tasks and one of own verifications; both are
evicted from the front on every write, and `exceeded_at` compares the numbers in
the window.

* `Kept`: what eviction keeps of a history, and `Kept.countP_eq`: nothing that counts
  is lost;
* `RateLimit.countsAt_eq_recorded`: so the counts are those of the complete history, also
  if the calls come in any order;
* `RateHistory.Keeps`: a condition on a step and the state before it, and
  `RateHistory.Keeps.within`: a step that meets it keeps the cap;
* `RateHistory.within_cap_of_keeps`: so does a run, and where the code's counts are those of
  the window every step that keeps the cap meets the condition.

The check is made before a verification is recorded, and only then: it may pass and the
verification exceed the cap, and a task that leaves the window is missed at the next check
only.
-/

namespace Parseh.Verify

open Parseh.Lib Parseh.Wire

/-- The `f64` operations of the selection, besides those of the tally. -/
class FloatArith (W : Type) extends WeightArith W where
  /-- `a * b`. -/
  mul : W → W → W
  /-- `a < b`. -/
  lt : W → W → Bool

instance : FloatArith ℚ where
  mul a b := a * b
  lt a b := decide (a < b)

variable {W : Type}

/-- `RATE_CAP_PER_HOUR`, the literal `0.10`. -/
def rateCapPerHour [WeightArith W] : W := WeightArith.ratio 10 100

def rateWindowSecs : Nat := 3600

/-- A `SystemTime` counts its seconds in an `i64`. -/
def minSystemTime : SystemTime := -(2 ^ 63 * nanosPerSec)

/-- `t.checked_sub(d)`. -/
def checkedSub (t : SystemTime) (d : Duration) : Option SystemTime :=
  if minSystemTime ≤ t - d then some (t - d) else none

/-- The two deques, front first. -/
structure RateLimit (W : Type) where
  window : Duration
  capFraction : W
  observed : List SystemTime
  own : List SystemTime

namespace RateLimit

/-- `RateLimit::with`. -/
def withParams (window : Duration) (capFraction : W) : RateLimit W :=
  { window, capFraction, observed := [], own := [] }

def v02Defaults [WeightArith W] : RateLimit W := withParams (fromSecs rateWindowSecs) rateCapPerHour

/-- The start of the window, or the epoch where that is no `SystemTime`. -/
def cutoff (r : RateLimit W) (t : SystemTime) : SystemTime := (checkedSub t r.window).getD 0

/-- Drop the front entries before the window from both deques. -/
def evictBefore (r : RateLimit W) (now : SystemTime) : RateLimit W :=
  { r with
    observed := r.observed.dropWhile fun u => u < r.cutoff now
    own := r.own.dropWhile fun u => u < r.cutoff now }

def recordObservedTaskAt (r : RateLimit W) (t : SystemTime) : RateLimit W :=
  evictBefore { r with observed := r.observed ++ [t] } t

def recordOwnVerificationAt (r : RateLimit W) (t : SystemTime) : RateLimit W :=
  evictBefore { r with own := r.own ++ [t] } t

/-- The stored times of the window. -/
def observedIn (r : RateLimit W) (t : SystemTime) : Nat := r.observed.countP fun u => r.cutoff t ≤ u

def ownIn (r : RateLimit W) (t : SystemTime) : Nat := r.own.countP fun u => r.cutoff t ≤ u

/-- `counts_at`: the two counts `as u32`. -/
def countsAt (r : RateLimit W) (t : SystemTime) : UInt32 × UInt32 :=
  (UInt32.ofNat (r.observedIn t), UInt32.ofNat (r.ownIn t))

/-- Is `own / max(observed, 1)` above the cap? -/
def exceededAt [FloatArith W] (r : RateLimit W) (t : SystemTime) : Bool :=
  let (observedInWindow, ownInWindow) := r.countsAt t
  FloatArith.lt r.capFraction (WeightArith.ratio ownInWindow.toNat (max observedInWindow.toNat 1))

end RateLimit

/-! ## What eviction keeps -/

/-- `kept` is what a deque still holds of the history `all`. -/
structure Kept (window : Duration) (now : SystemTime) (all kept : List SystemTime) : Prop where
  dropped : ∃ old, all = old ++ kept ∧ ∀ u ∈ old, u < now - window
  past : ∀ u ∈ all, u ≤ now

namespace Kept

variable {w : Duration} {now t c : SystemTime} {all kept : List SystemTime}

theorem nil (w : Duration) (now : SystemTime) : Kept w now [] [] := ⟨⟨[], rfl, nofun⟩, nofun⟩

theorem later (h : Kept w now all kept) (hle : now ≤ t) : Kept w t all kept := by
  obtain ⟨old, hall, hold⟩ := h.dropped
  refine ⟨⟨old, hall, fun u hu => ?_⟩, fun u hu => le_trans (h.past u hu) hle⟩
  exact lt_of_lt_of_le (hold u hu) (Int.sub_le_sub_right hle w)

theorem subset (h : Kept w now all kept) : kept ⊆ all := by
  obtain ⟨old, rfl, -⟩ := h.dropped
  exact List.subset_append_right old kept

theorem push {u : SystemTime} (h : Kept w t all kept) (hu : u ≤ t) :
    Kept w t (all ++ [u]) (kept ++ [u]) := by
  obtain ⟨old, rfl, hold⟩ := h.dropped
  refine ⟨⟨old, List.append_assoc .., hold⟩, fun v hv => ?_⟩
  rcases List.mem_append.mp hv with hv | hv
  · exact h.past v hv
  · rwa [List.mem_singleton.mp hv]

/-- Eviction may use any cutoff that lets go only of what is before the window. -/
theorem evict (h : Kept w t all kept) (hc : ∀ u ∈ kept, u < c → u < t - w) :
    Kept w t all (kept.dropWhile fun u => u < c) := by
  obtain ⟨old, rfl, hold⟩ := h.dropped
  refine ⟨⟨old ++ kept.takeWhile fun u => u < c, ?_, fun u hu => ?_⟩, h.past⟩
  · rw [List.append_assoc, List.takeWhile_append_dropWhile]
  · rcases List.mem_append.mp hu with hu | hu
    · exact hold u hu
    · have hlt : u < c := by simpa using List.mem_takeWhile_imp hu
      exact hc u ((List.takeWhile_prefix _).subset hu) hlt

/-- Nothing that counts is lost. -/
theorem countP_eq (h : Kept w t all kept) (hc : ∀ u ∈ kept, c ≤ u ↔ t - w ≤ u) :
    (all.countP fun u => t - w ≤ u) = kept.countP fun u => c ≤ u := by
  obtain ⟨old, rfl, hold⟩ := h.dropped
  have hzero : (old.countP fun u => t - w ≤ u) = 0 := by
    rw [List.countP_eq_zero]
    intro u hu hin
    exact absurd (hold u hu) (not_lt_of_ge (of_decide_eq_true hin))
  rw [List.countP_append, hzero, Nat.zero_add]
  apply List.countP_congr
  intro u hu
  simp [hc u hu]

/-- No recorded time lies after the window. -/
theorem countP_window (h : Kept w t all kept) :
    (all.countP fun u => t - w ≤ u ∧ u ≤ t) = all.countP fun u => t - w ≤ u := by
  apply List.countP_congr
  intro u hu
  simp [h.past u hu]

end Kept

/-! ## Runs -/

/-- A write, or a call of `exceeded_at` that only looks. -/
inductive RateAction
  | observedTask | ownVerification | look
  deriving DecidableEq

structure RateStep where
  time : SystemTime
  action : RateAction
  deriving DecidableEq

def RateLimit.step (r : RateLimit W) (s : RateStep) : RateLimit W :=
  match s.action with
  | .observedTask => r.recordObservedTaskAt s.time
  | .ownVerification => r.recordOwnVerificationAt s.time
  | .look => r

/-- What the limiter has kept, as seen from a time `t` at or after all of it. -/
structure RateLimit.Holds (r : RateLimit W) (t : SystemTime) (observed own : List SystemTime) :
    Prop where
  observed : Kept r.window t observed r.observed
  own : Kept r.window t own r.own

namespace RateLimit

variable {r : RateLimit W} {s : RateStep} {t u : SystemTime}

theorem cutoff_of_some {c : SystemTime} (h : checkedSub t r.window = some c) :
    r.cutoff t = t - r.window := by
  rw [cutoff, h, Option.getD_some]
  unfold checkedSub at h
  split at h
  · exact (Option.some.inj h).symm
  · cases h

theorem cutoff_of_none (h : checkedSub t r.window = none) :
    r.cutoff t = 0 ∧ t - r.window < 0 := by
  rw [cutoff, h, Option.getD_none]
  refine ⟨rfl, ?_⟩
  unfold checkedSub at h
  split at h
  · cases h
  · next hlt =>
    have hmin : minSystemTime ≤ 0 := by decide
    exact lt_of_lt_of_le (lt_of_not_ge hlt) hmin

/-- The code's window is the window, for a time at or after the epoch at least. -/
theorem cutoff_le_iff (h : (checkedSub t r.window).isSome ∨ 0 ≤ u) :
    r.cutoff t ≤ u ↔ t - r.window ≤ u := by
  cases hsub : checkedSub t r.window with
  | some c => rw [cutoff_of_some hsub]
  | none =>
    obtain ⟨hcut, hlt⟩ := cutoff_of_none hsub
    rw [hsub] at h
    have hu : 0 ≤ u := h.resolve_left (by decide)
    rw [hcut]
    exact iff_of_true hu (le_trans (le_of_lt hlt) hu)

@[simp] theorem window_step (r : RateLimit W) (s : RateStep) : (r.step s).window = r.window := by
  unfold step
  cases s.action <;> rfl

/-- A call may come late: it is enough that it evicts only what is before the window
that ends at `t`. -/
theorem Holds.step {observed own : List SystemTime} (h : r.Holds t observed own)
    (hle : s.action ≠ .look → s.time ≤ t)
    (hcut : s.action ≠ .look → ∀ u, u ∈ r.observed ∨ u ∈ r.own ∨ u = s.time →
      u < r.cutoff s.time → u < t - r.window) :
    (r.step s).Holds t (if s.action = .observedTask then observed ++ [s.time] else observed)
      (if s.action = .ownVerification then own ++ [s.time] else own) := by
  unfold RateLimit.step
  cases ha : s.action with
  | observedTask =>
    have hc := hcut (by rw [ha]; decide)
    have hpush := h.observed.push (hle (by rw [ha]; decide))
    refine ⟨hpush.evict fun u hu => hc u ?_, h.own.evict fun u hu => hc u ?_⟩
    · rcases List.mem_append.mp hu with hu | hu
      · exact Or.inl hu
      · exact Or.inr (Or.inr (List.mem_singleton.mp hu))
    · exact Or.inr (Or.inl hu)
  | ownVerification =>
    have hc := hcut (by rw [ha]; decide)
    have hpush := h.own.push (hle (by rw [ha]; decide))
    refine ⟨h.observed.evict fun u hu => hc u ?_, hpush.evict fun u hu => hc u ?_⟩
    · exact Or.inl hu
    · rcases List.mem_append.mp hu with hu | hu
      · exact Or.inr (Or.inl hu)
      · exact Or.inr (Or.inr (List.mem_singleton.mp hu))
  | look => exact h

/-! ## The complete history -/

/-- The times of all the calls of a kind, in the order of the calls. -/
def recorded (a : RateAction) (steps : List RateStep) : List SystemTime :=
  (steps.filter fun s => s.action = a).map RateStep.time

theorem recorded_concat (a : RateAction) (steps : List RateStep) (s : RateStep) :
    recorded a (steps ++ [s]) =
      if s.action = a then recorded a steps ++ [s.time] else recorded a steps := by
  unfold recorded
  rw [List.filter_append, List.map_append]
  split
  · next h => simp [h]
  · next h => simp [h]

theorem exists_of_mem_recorded {a : RateAction} {steps : List RateStep} (h : u ∈ recorded a steps) :
    ∃ s ∈ steps, s.action = a ∧ s.time = u := by
  obtain ⟨s, hs, rfl⟩ := List.mem_map.mp h
  obtain ⟨hmem, ha⟩ := List.mem_filter.mp hs
  exact ⟨s, hmem, of_decide_eq_true ha, rfl⟩

/-- A call at or after the epoch, and not after `t`, evicts only what is before the window
that ends at `t`. -/
theorem lt_of_lt_cutoff (hu : 0 ≤ u) (hle : s.time ≤ t) (hlt : u < r.cutoff s.time) :
    u < t - r.window := by
  have hnot : ¬ s.time - r.window ≤ u := fun hge =>
    not_lt_of_ge ((cutoff_le_iff (Or.inr hu)).mpr hge) hlt
  exact lt_of_lt_of_le (lt_of_not_ge hnot) (Int.sub_le_sub_right hle _)

/-- The calls of the run are at or after the epoch, in any order, and none is after `t`. -/
def CallsUpTo (t : SystemTime) (steps : List RateStep) : Prop :=
  ∀ s ∈ steps, s.action ≠ .look → 0 ≤ s.time ∧ s.time ≤ t

instance (t : SystemTime) (steps : List RateStep) : Decidable (CallsUpTo t steps) :=
  inferInstanceAs (Decidable (∀ s ∈ steps, s.action ≠ .look → 0 ≤ s.time ∧ s.time ≤ t))

theorem CallsUpTo.nonneg {steps : List RateStep} (h : CallsUpTo t steps)
    (hu : u ∈ recorded .observedTask steps ∨ u ∈ recorded .ownVerification steps) : 0 ≤ u := by
  rcases hu with hu | hu
  · obtain ⟨s, hs, ha, rfl⟩ := exists_of_mem_recorded hu
    exact (h s hs (by rw [ha]; decide)).1
  · obtain ⟨s, hs, ha, rfl⟩ := exists_of_mem_recorded hu
    exact (h s hs (by rw [ha]; decide)).1

/-- **A whole run.**  However late its calls come, the limiter lets go only of what is
before the window that ends at `t`. -/
theorem holds_run (window : Duration) (capFraction : W) {steps : List RateStep}
    (h : CallsUpTo t steps) :
    (run step (withParams window capFraction) steps).Holds t (recorded .observedTask steps)
      (recorded .ownVerification steps) := by
  induction steps using List.reverseRecOn with
  | nil => exact ⟨.nil window t, .nil window t⟩
  | append_singleton steps s ih =>
    have hsteps : CallsUpTo t steps := fun s' hs' => h s' (List.mem_append_left _ hs')
    have hs := h s (List.mem_append_right _ List.mem_cons_self)
    have hholds := ih hsteps
    rw [run_append, run_cons, run_nil, recorded_concat, recorded_concat]
    refine hholds.step (fun ha => (hs ha).2) fun ha u hu hlt => ?_
    refine lt_of_lt_cutoff ?_ (hs ha).2 hlt
    rcases hu with hu | hu | rfl
    · exact hsteps.nonneg (Or.inl (hholds.observed.subset hu))
    · exact hsteps.nonneg (Or.inr (hholds.own.subset hu))
    · exact (hs ha).1

@[simp] theorem window_run (r : RateLimit W) (steps : List RateStep) :
    (run step r steps).window = r.window := by
  induction steps generalizing r with
  | nil => rfl
  | cons s steps ih => rw [run_cons, ih, window_step]

/-- How many of all the calls of a kind, evicted or not, have a time at or after `c`. -/
def recordedSince (a : RateAction) (steps : List RateStep) (c : SystemTime) : Nat :=
  (recorded a steps).countP fun u => c ≤ u

theorem countP_cutoff {all kept : List SystemTime} (hkept : Kept r.window t all kept)
    (hall : ∀ u ∈ all, 0 ≤ u) :
    (kept.countP fun u => r.cutoff t ≤ u) = all.countP fun u => t - r.window ≤ u := by
  refine (hkept.countP_eq fun u hu => ?_).symm
  apply cutoff_le_iff
  exact Or.inr (hall u (hkept.subset hu))

theorem observedIn_run (window : Duration) (capFraction : W) {steps : List RateStep}
    (h : CallsUpTo t steps) :
    (run step (withParams window capFraction) steps).observedIn t =
      recordedSince .observedTask steps (t - window) := by
  have hcount := countP_cutoff (holds_run window capFraction h).observed fun u hu =>
    h.nonneg (Or.inl hu)
  rw [window_run] at hcount
  exact hcount

theorem ownIn_run (window : Duration) (capFraction : W) {steps : List RateStep}
    (h : CallsUpTo t steps) :
    (run step (withParams window capFraction) steps).ownIn t =
      recordedSince .ownVerification steps (t - window) := by
  have hcount := countP_cutoff (holds_run window capFraction h).own fun u hu =>
    h.nonneg (Or.inr hu)
  rw [window_run] at hcount
  exact hcount

theorem toNat_ofNat_eq_iff (n : Nat) : (UInt32.ofNat n).toNat = n ↔ n < 2 ^ 32 := by
  rw [UInt32.toNat_ofNat']
  omega

/-- For every window, every run of calls at or after the epoch, in any order, and every
time `t` that no call is after: `counts_at` gives, `as u32`, the numbers of all the calls of
each kind, evicted or not, whose time is at or after `t - window`.  These are the numbers
themselves exactly if they are below `2^32`. -/
theorem countsAt_eq_recorded (window : Duration) (capFraction : W) (steps : List RateStep)
    (t : SystemTime) (h : CallsUpTo t steps) :
    let counts := (run step (withParams window capFraction) steps).countsAt t
    let observed := recordedSince .observedTask steps (t - window)
    let own := recordedSince .ownVerification steps (t - window)
    counts = (UInt32.ofNat observed, UInt32.ofNat own) ∧
      (counts.1.toNat = observed ↔ observed < 2 ^ 32) ∧ (counts.2.toNat = own ↔ own < 2 ^ 32) := by
  intro counts observed own
  have hcounts : counts = (UInt32.ofNat observed, UInt32.ofNat own) := by
    change (run step (withParams window capFraction) steps).countsAt t = _
    rw [countsAt, observedIn_run window capFraction h, ownIn_run window capFraction h]
  rw [hcounts]
  exact ⟨rfl, toNat_ofNat_eq_iff observed, toNat_ofNat_eq_iff own⟩

/-- Calls that come late, the second of them by more than a window. -/
def lateCalls : List RateStep :=
  [⟨fromSecs 100, .observedTask⟩, ⟨fromSecs 5, .observedTask⟩, ⟨fromSecs 7, .ownVerification⟩,
    ⟨fromSecs 102, .ownVerification⟩, ⟨fromSecs 95, .observedTask⟩]

/-- The task of second 5 stays behind that of second 100, and is not counted. -/
theorem countsAt_lateCalls :
    (run step (withParams (fromSecs 10) (rateCapPerHour : ℚ)) lateCalls).observed =
        [fromSecs 100, fromSecs 5, fromSecs 95] ∧
      (run step (withParams (fromSecs 10) (rateCapPerHour : ℚ)) lateCalls).countsAt
        (fromSecs 105) = (2, 1) :=
  ⟨by decide +kernel, (countsAt_eq_recorded (fromSecs 10) (rateCapPerHour : ℚ) lateCalls
    (fromSecs 105) (by decide +kernel)).1.trans (by decide +kernel)⟩

/-- `n` tasks are observed at the epoch. -/
def burst (n : Nat) : List RateStep := List.replicate n ⟨0, .observedTask⟩

theorem callsUpTo_burst (n : Nat) : CallsUpTo 0 (burst n) := by
  intro s hs _
  obtain ⟨-, rfl⟩ := List.mem_replicate.mp hs
  exact ⟨le_rfl, le_rfl⟩

theorem recordedSince_burst (n : Nat) {c : SystemTime} (hc : c ≤ 0) :
    recordedSince .observedTask (burst n) c = n := by
  unfold recordedSince recorded burst
  rw [List.filter_replicate_of_pos (by decide), List.map_replicate, List.countP_replicate,
    if_pos (by simpa using hc)]

/-- With `2^32` tasks in the window `counts_at` is 0. -/
theorem countsAt_burst_wraps :
    CallsUpTo 0 (burst (2 ^ 32)) ∧
      recordedSince .observedTask (burst (2 ^ 32)) (0 - fromSecs rateWindowSecs) = 2 ^ 32 ∧
      ((run step (withParams (fromSecs rateWindowSecs) (rateCapPerHour : ℚ))
        (burst (2 ^ 32))).countsAt 0).1.toNat = 0 := by
  have hwindow : (0 : SystemTime) - fromSecs rateWindowSecs ≤ 0 := by decide
  have hcount := recordedSince_burst (2 ^ 32) hwindow
  refine ⟨callsUpTo_burst _, hcount, ?_⟩
  rw [countsAt, observedIn_run _ _ (callsUpTo_burst _), hcount]
  rfl

end RateLimit

/-! ## Runs with their history -/

/-- The limiter and everything that has happened. -/
structure RateHistory where
  limit : RateLimit ℚ
  observed : List SystemTime
  own : List SystemTime
  now : SystemTime

namespace RateHistory

/-- A fresh limiter at `now`. -/
def start (window : Duration) (capFraction : ℚ) (now : SystemTime) : RateHistory :=
  ⟨.withParams window capFraction, [], [], now⟩

def step (h : RateHistory) (s : RateStep) : RateHistory where
  limit := h.limit.step s
  observed := if s.action = .observedTask then h.observed ++ [s.time] else h.observed
  own := if s.action = .ownVerification then h.own ++ [s.time] else h.own
  now := s.time

/-- How many of the times lie in `[now - window, now]`. -/
def countIn (h : RateHistory) (times : List SystemTime) : Nat :=
  times.countP fun u => h.now - h.limit.window ≤ u ∧ u ≤ h.now

/-- The own verifications of the window are within the cap. -/
def Within (h : RateHistory) : Prop :=
  (h.countIn h.own : ℚ) ≤ h.limit.capFraction * max 1 (h.countIn h.observed : ℚ)

/-- Time does not go back, and a verification is recorded only while the cap is not
exceeded. -/
def Allowed (h : RateHistory) (s : RateStep) : Prop :=
  h.now ≤ s.time ∧ (s.action = .ownVerification → h.limit.exceededAt s.time = false)

/-- The start of the window is a `SystemTime`, or none of the times lies before the epoch. -/
def Sees (h : RateHistory) (s : RateStep) (times : List SystemTime) : Prop :=
  (checkedSub s.time h.limit.window).isSome ∨ ∀ u ∈ times, 0 ≤ u

/-- A task that was in the window at the last step is in it no more. -/
def Slid (h : RateHistory) (s : RateStep) : Prop :=
  ∃ u ∈ h.observed, h.now - h.limit.window ≤ u ∧ u < s.time - h.limit.window

/-- What keeps the cap in a step. -/
@[mk_iff]
structure Keeps (h : RateHistory) (s : RateStep) : Prop where
  /-- The own verifications of the window have not just used up what the tasks in it allow. -/
  unspent : s.action = .ownVerification →
    (h.limit.ownIn s.time : ℤ) ≠ ⌊h.limit.capFraction * max 1 (h.limit.observedIn s.time : ℚ)⌋
  /-- When tasks have left the window, the check passes, whatever the step records. -/
  slid : h.Slid s → h.limit.exceededAt s.time = false
  counted : h.limit.ownIn s.time < 2 ^ 32
  seen : h.Sees s (h.step s).own

/-- The counts of the code are those of the window. -/
structure Counts (h : RateHistory) (s : RateStep) : Prop where
  observed : h.limit.observedIn s.time < 2 ^ 32
  own : h.limit.ownIn s.time < 2 ^ 32
  seen : h.Sees s ((h.step s).observed ++ (h.step s).own)

/-- The cap holds at the time of the step, before it and after it. -/
def WithinAround (h : RateHistory) (s : RateStep) : Prop :=
  (h.step ⟨s.time, .look⟩).Within ∧ (h.step s).Within

variable {h : RateHistory} {s : RateStep}

@[simp] theorem window_step (h : RateHistory) (s : RateStep) :
    (h.step s).limit.window = h.limit.window := RateLimit.window_step h.limit s

@[simp] theorem capFraction_step (h : RateHistory) (s : RateStep) :
    (h.step s).limit.capFraction = h.limit.capFraction := by
  simp only [RateHistory.step, RateLimit.step]
  cases s.action <;> rfl

/-! ## What the code counts -/

/-- What the code counts lies in the window. -/
theorem window_le_of_cutoff_le {r : RateLimit ℚ} {t u : SystemTime} (h : r.cutoff t ≤ u) :
    t - r.window ≤ u := by
  cases hsub : checkedSub t r.window with
  | some c => exact RateLimit.cutoff_of_some hsub ▸ h
  | none =>
    obtain ⟨hcut, hlt⟩ := RateLimit.cutoff_of_none hsub
    rw [hcut] at h
    exact (le_of_lt hlt).trans h

theorem Sees.cutoff_le_iff {times : List SystemTime} (hsees : h.Sees s times) {u : SystemTime}
    (hu : u ∈ times) : h.limit.cutoff s.time ≤ u ↔ s.time - h.limit.window ≤ u :=
  RateLimit.cutoff_le_iff (hsees.imp id fun hall => hall u hu)

/-- A step evicts only what is before the window. -/
theorem Sees.evict {all kept : List SystemTime} (hsees : h.Sees s all)
    (hkept : Kept h.limit.window s.time all kept) :
    Kept h.limit.window s.time all (kept.dropWhile fun u => u < h.limit.cutoff s.time) :=
  hkept.evict fun _ hu hlt => lt_of_not_ge fun hge =>
    not_lt_of_ge ((hsees.cutoff_le_iff (hkept.subset hu)).mpr hge) hlt

/-- The deque of own verifications holds what its history needs, that of observed tasks
nothing that was not observed. -/
structure Inv (h : RateHistory) : Prop where
  own : Kept h.limit.window h.now h.own h.limit.own
  observed : h.limit.observed.Sublist h.observed
  past : ∀ u ∈ h.observed, u ≤ h.now

theorem inv_start (window : Duration) (capFraction : ℚ) (now : SystemTime) :
    (start window capFraction now).Inv := ⟨.nil window now, .slnil, nofun⟩

theorem Inv.step (hinv : h.Inv) (hle : h.now ≤ s.time) (hsees : h.Sees s (h.step s).own) :
    (h.step s).Inv := by
  have hown := hinv.own.later hle
  have hpast : ∀ u ∈ h.observed, u ≤ s.time := fun u hu => (hinv.past u hu).trans hle
  obtain ⟨time, action⟩ := s
  cases action with
  | observedTask =>
    refine ⟨hsees.evict hown, (List.dropWhile_sublist _).trans (hinv.observed.append_right _), ?_⟩
    intro u hu
    rcases List.mem_append.mp hu with hu | hu
    · exact hpast u hu
    · exact le_of_eq (List.mem_singleton.mp hu)
  | ownVerification =>
    exact ⟨hsees.evict (hown.push le_rfl), (List.dropWhile_sublist _).trans hinv.observed, hpast⟩
  | look => exact ⟨hown, hinv.observed, hpast⟩

/-- How many of the times lie in the window that ends at `t`. -/
def countAt (h : RateHistory) (t : SystemTime) (times : List SystemTime) : Nat :=
  times.countP fun u => t - h.limit.window ≤ u ∧ u ≤ t

theorem countIn_own_step :
    (h.step s).countIn (h.step s).own =
      h.countAt s.time h.own + if s.action = .ownVerification then 1 else 0 := by
  unfold countIn
  rw [window_step]
  show List.countP (fun u => s.time - h.limit.window ≤ u ∧ u ≤ s.time)
    (if s.action = .ownVerification then h.own ++ [s.time] else h.own) = _
  split
  · rw [List.countP_append]
    simp [countAt]
  · rfl

theorem countIn_observed_step :
    (h.step s).countIn (h.step s).observed =
      h.countAt s.time h.observed + if s.action = .observedTask then 1 else 0 := by
  unfold countIn
  rw [window_step]
  show List.countP (fun u => s.time - h.limit.window ≤ u ∧ u ≤ s.time)
    (if s.action = .observedTask then h.observed ++ [s.time] else h.observed) = _
  split
  · rw [List.countP_append]
    simp [countAt]
  · rfl

/-- The limiter counts all own verifications of the window. -/
theorem countAt_eq_of_kept {all kept times : List SystemTime}
    (hkept : Kept h.limit.window h.now all kept) (hle : h.now ≤ s.time)
    (hsees : h.Sees s times) (hsub : all ⊆ times) :
    h.countAt s.time all = kept.countP fun u => h.limit.cutoff s.time ≤ u := by
  have hlater := hkept.later hle
  refine hlater.countP_window.trans (hlater.countP_eq fun u hu => ?_)
  exact hsees.cutoff_le_iff (hsub (hkept.subset hu))

/-- It may count fewer tasks than there are. -/
theorem observedIn_le (hinv : h.Inv) (hle : h.now ≤ s.time) :
    h.limit.observedIn s.time ≤ h.countAt s.time h.observed := by
  refine le_trans ?_ (hinv.observed.countP_le)
  refine List.countP_mono_left fun u hu hin => ?_
  simp only [decide_eq_true_eq] at hin ⊢
  exact ⟨window_le_of_cutoff_le hin, (hinv.past u (hinv.observed.subset hu)).trans hle⟩

theorem own_subset_step : h.own ⊆ (h.step s).own := by
  show h.own ⊆ if s.action = .ownVerification then h.own ++ [s.time] else h.own
  split
  · exact List.subset_append_left _ _
  · exact List.Subset.refl _

theorem observed_subset_step : h.observed ⊆ (h.step s).observed := by
  show h.observed ⊆ if s.action = .observedTask then h.observed ++ [s.time] else h.observed
  split
  · exact List.subset_append_left _ _
  · exact List.Subset.refl _

/-- A write is in its history. -/
theorem time_mem_step (hwrite : s.action ≠ .look) :
    s.time ∈ (h.step s).observed ∨ s.time ∈ (h.step s).own := by
  obtain ⟨time, action⟩ := s
  cases action with
  | observedTask => exact Or.inl (List.mem_append_right _ List.mem_cons_self)
  | ownVerification => exact Or.inr (List.mem_append_right _ List.mem_cons_self)
  | look => exact absurd rfl hwrite

/-! ## The check -/

/-- What the check says if the counts of own verifications fit. -/
theorem own_le_of_not_exceeded {r : RateLimit ℚ} {t : SystemTime} (hcap : 0 ≤ r.capFraction)
    (hown : r.ownIn t < 2 ^ 32) (h : r.exceededAt t = false) :
    (r.ownIn t : ℚ) ≤ r.capFraction * max 1 (r.observedIn t : ℚ) := by
  have hle : ((UInt32.ofNat (r.observedIn t)).toNat : ℚ) ≤ (r.observedIn t : ℚ) :=
    Nat.cast_le.mpr (by rw [UInt32.toNat_ofNat']; exact Nat.mod_le _ _)
  have hratio : ((r.ownIn t : ℚ)) / (max (UInt32.ofNat (r.observedIn t)).toNat 1 : ℕ) ≤
      r.capFraction := by
    have hn := of_decide_eq_false h
    rw [not_lt] at hn
    have hn : (((UInt32.ofNat (r.ownIn t)).toNat : ℚ)) /
        (max (UInt32.ofNat (r.observedIn t)).toNat 1 : ℕ) ≤ r.capFraction := hn
    rwa [(RateLimit.toNat_ofNat_eq_iff _).mpr hown] at hn
  have hpos : (0 : ℚ) < (max (UInt32.ofNat (r.observedIn t)).toNat 1 : ℕ) := by
    exact_mod_cast lt_of_lt_of_le Nat.zero_lt_one (le_max_right _ 1)
  calc (r.ownIn t : ℚ) ≤ r.capFraction * (max (UInt32.ofNat (r.observedIn t)).toNat 1 : ℕ) :=
        (div_le_iff₀ hpos).mp hratio
    _ ≤ r.capFraction * max 1 (r.observedIn t : ℚ) := by
        refine mul_le_mul_of_nonneg_left ?_ hcap
        rw [Nat.cast_max, Nat.cast_one, max_comm]
        exact max_le_max_left 1 hle

/-- The check passes if the counts fit and are within the cap. -/
theorem not_exceeded_of_own_le {r : RateLimit ℚ} {t : SystemTime} (hobserved : r.observedIn t < 2 ^ 32)
    (hown : r.ownIn t < 2 ^ 32)
    (h : (r.ownIn t : ℚ) ≤ r.capFraction * max 1 (r.observedIn t : ℚ)) :
    r.exceededAt t = false := by
  have hpos : (0 : ℚ) < (max (r.observedIn t) 1 : ℕ) := by
    exact_mod_cast lt_of_lt_of_le Nat.zero_lt_one (le_max_right _ 1)
  have hratio : (r.ownIn t : ℚ) / (max (r.observedIn t) 1 : ℕ) ≤ r.capFraction := by
    rw [div_le_iff₀ hpos, Nat.cast_max, Nat.cast_one, max_comm]
    exact h
  have hcast : r.exceededAt t = decide (r.capFraction <
      ((UInt32.ofNat (r.ownIn t)).toNat : ℚ) /
        (max (UInt32.ofNat (r.observedIn t)).toNat 1 : ℕ)) := rfl
  rw [hcast, (RateLimit.toNat_ofNat_eq_iff _).mpr hown,
    (RateLimit.toNat_ofNat_eq_iff _).mpr hobserved]
  exact decide_eq_false (not_lt.mpr hratio)

/-! ## The cap along a run -/

/-- Before the step the cap holds at its time: it has been checked, or no task has left. -/
theorem Keeps.before (hkeeps : h.Keeps s) (hinv : h.Inv) (hallowed : h.Allowed s)
    (hcap : 0 ≤ h.limit.capFraction) (hwithin : h.Within) :
    (h.countAt s.time h.own : ℚ) ≤ h.limit.capFraction * max 1 (h.countAt s.time h.observed : ℚ) := by
  have hle := hallowed.1
  by_cases hchecked : h.limit.exceededAt s.time = false
  · have hcount := countAt_eq_of_kept hinv.own hle hkeeps.seen own_subset_step
    calc (h.countAt s.time h.own : ℚ) = h.limit.ownIn s.time := congrArg Nat.cast hcount
      _ ≤ h.limit.capFraction * max 1 (h.limit.observedIn s.time : ℚ) :=
        own_le_of_not_exceeded hcap hkeeps.counted hchecked
      _ ≤ h.limit.capFraction * max 1 (h.countAt s.time h.observed : ℚ) := by
        refine mul_le_mul_of_nonneg_left (max_le_max_left 1 ?_) hcap
        exact Nat.cast_le.mpr (observedIn_le hinv hle)
  · have hnot : ¬ h.Slid s := fun hslid => hchecked (hkeeps.slid hslid)
    have hown : h.countAt s.time h.own ≤ h.countIn h.own := by
      refine List.countP_mono_left fun u hu hin => ?_
      simp only [decide_eq_true_eq] at hin ⊢
      exact ⟨le_trans (Int.sub_le_sub_right hle _) hin.1, hinv.own.past u hu⟩
    have hobs : h.countIn h.observed ≤ h.countAt s.time h.observed := by
      refine List.countP_mono_left fun u hu hin => ?_
      simp only [decide_eq_true_eq] at hin ⊢
      exact ⟨le_of_not_gt fun hlt => hnot ⟨u, hu, hin.1, hlt⟩, hin.2.trans hle⟩
    calc (h.countAt s.time h.own : ℚ) ≤ h.countIn h.own := Nat.cast_le.mpr hown
      _ ≤ h.limit.capFraction * max 1 (h.countIn h.observed : ℚ) := hwithin
      _ ≤ h.limit.capFraction * max 1 (h.countAt s.time h.observed : ℚ) := by
        refine mul_le_mul_of_nonneg_left (max_le_max_left 1 ?_) hcap
        exact Nat.cast_le.mpr hobs

/-- **One step** that meets the condition keeps the cap. -/
theorem Keeps.within (hkeeps : h.Keeps s) (hinv : h.Inv) (hallowed : h.Allowed s)
    (hcap : 0 ≤ h.limit.capFraction) (hwithin : h.Within) : (h.step s).Within := by
  have hle := hallowed.1
  have hbefore := hkeeps.before hinv hallowed hcap hwithin
  unfold Within
  rw [countIn_own_step, countIn_observed_step, capFraction_step]
  by_cases hown : s.action = .ownVerification
  · -- the check leaves a whole verification, since the allowance is not used up
    have hchecked := own_le_of_not_exceeded hcap hkeeps.counted (hallowed.2 hown)
    have hfloor : (h.limit.ownIn s.time : ℤ) ≤
        ⌊h.limit.capFraction * max 1 (h.limit.observedIn s.time : ℚ)⌋ :=
      Int.le_floor.mpr (by exact_mod_cast hchecked)
    have hnext : ((h.limit.ownIn s.time : ℤ) + 1 : ℤ) ≤
        ⌊h.limit.capFraction * max 1 (h.limit.observedIn s.time : ℚ)⌋ :=
      Int.add_one_le_of_lt (lt_of_le_of_ne hfloor (hkeeps.unspent hown))
    have hcount := countAt_eq_of_kept hinv.own hle hkeeps.seen own_subset_step
    have hobs := observedIn_le hinv hle
    rw [if_pos hown, if_neg (by rw [hown]; decide), Nat.add_zero]
    calc ((h.countAt s.time h.own + 1 : ℕ) : ℚ) = (h.limit.ownIn s.time : ℚ) + 1 := by
          rw [hcount, Nat.cast_add, Nat.cast_one]
          rfl
      _ ≤ h.limit.capFraction * max 1 (h.limit.observedIn s.time : ℚ) := by
        exact_mod_cast Int.le_floor.mp hnext
      _ ≤ h.limit.capFraction * max 1 (h.countAt s.time h.observed : ℚ) := by
        refine mul_le_mul_of_nonneg_left (max_le_max_left 1 ?_) hcap
        exact Nat.cast_le.mpr hobs
  · rw [if_neg hown, Nat.add_zero]
    refine hbefore.trans (mul_le_mul_of_nonneg_left (max_le_max_left 1 ?_) hcap)
    exact Nat.cast_le.mpr (Nat.le_add_right _ _)

/-- A step around which the cap holds meets the condition, where the counts are exact. -/
theorem WithinAround.keeps (haround : h.WithinAround s) (hcounts : h.Counts s)
    (hholds : h.limit.Holds h.now h.observed h.own) (hle : h.now ≤ s.time) : h.Keeps s := by
  have hseen : h.Sees s (h.step s).own :=
    hcounts.seen.imp id fun hall u hu => hall u (List.mem_append_right _ hu)
  have hown : h.countAt s.time h.own = h.limit.ownIn s.time :=
    countAt_eq_of_kept hholds.own hle hseen own_subset_step
  have hobs : h.countAt s.time h.observed = h.limit.observedIn s.time := by
    refine countAt_eq_of_kept hholds.observed hle hcounts.seen fun u hu => ?_
    exact List.mem_append_left _ (observed_subset_step hu)
  obtain ⟨hbefore, hafter⟩ := haround
  unfold Within at hbefore hafter
  rw [countIn_own_step, countIn_observed_step, capFraction_step] at hbefore hafter
  refine ⟨fun hact hspent => ?_, fun _ => ?_, hcounts.own, hseen⟩
  · rw [if_pos hact, if_neg (by rw [hact]; decide), Nat.add_zero, hown, hobs] at hafter
    have hnext : (h.limit.ownIn s.time : ℤ) + 1 ≤
        ⌊h.limit.capFraction * max 1 (h.limit.observedIn s.time : ℚ)⌋ :=
      Int.le_floor.mpr (by exact_mod_cast hafter)
    omega
  · simp only [reduceCtorEq, if_false, Nat.add_zero] at hbefore
    rw [hown, hobs] at hbefore
    exact not_exceeded_of_own_le hcounts.observed hcounts.own hbefore

/-- The deques hold what their histories need, if the counts of the code are those of the
window. -/
theorem Counts.holds_step (hcounts : h.Counts s) (hle : h.now ≤ s.time)
    (hholds : h.limit.Holds h.now h.observed h.own) :
    (h.step s).limit.Holds (h.step s).now (h.step s).observed (h.step s).own := by
  have hlater : h.limit.Holds s.time h.observed h.own :=
    ⟨hholds.observed.later hle, hholds.own.later hle⟩
  refine hlater.step (fun _ => le_rfl) fun hwrite u hu hlt => lt_of_not_ge fun hge => ?_
  have hmem : u ∈ (h.step s).observed ++ (h.step s).own := by
    rw [List.mem_append]
    rcases hu with hu | hu | rfl
    · exact Or.inl (observed_subset_step (hholds.observed.subset hu))
    · exact Or.inr (own_subset_step (hholds.own.subset hu))
    · exact time_mem_step hwrite
  exact not_lt_of_ge ((hcounts.seen.cutoff_le_iff hmem).mpr hge) hlt

theorem within_start_iff (window : Duration) (capFraction : ℚ) (now : SystemTime) :
    (start window capFraction now).Within ↔ 0 ≤ capFraction := by
  simp [Within, start, countIn, RateLimit.withParams]

/-- **A whole run** whose steps meet the condition stays within the cap. -/
theorem within_run (hinv : h.Inv) (hcap : 0 ≤ h.limit.capFraction) (hwithin : h.Within)
    {steps : List RateStep} (hallowed : Guarded step Allowed h steps)
    (hkeeps : Guarded step Keeps h steps) : (run step h steps).Within := by
  have hstep : ∀ (h : RateHistory) s, h.Allowed s ∧ h.Keeps s →
      h.Inv ∧ 0 ≤ h.limit.capFraction ∧ h.Within →
      (h.step s).Inv ∧ 0 ≤ (h.step s).limit.capFraction ∧ (h.step s).Within := by
    rintro h s ⟨hallowed, hkeeps⟩ ⟨hinv, hcap, hwithin⟩
    refine ⟨hinv.step hallowed.1 hkeeps.seen, ?_, hkeeps.within hinv hallowed hcap hwithin⟩
    rwa [capFraction_step]
  exact ((hallowed.and hkeeps).invariant hstep ⟨hinv, hcap, hwithin⟩).2.2

/-- For every cap, every window and every run that records a verification only while
`exceeded_at` is false: if the cap is not negative and every step meets the condition, the cap
holds at every time of the run.  Where the counts of the code are those of the window, the
condition is also needed: a run at whose times the cap holds, before each step and after it,
meets it in every step. -/
theorem within_cap_of_keeps (window : Duration) (capFraction : ℚ) (now : SystemTime)
    (steps : List RateStep)
    (hallowed : Guarded step Allowed (start window capFraction now) steps) :
    (0 ≤ capFraction ∧ Guarded step Keeps (start window capFraction now) steps →
      ∀ pre, pre <+: steps → (run step (start window capFraction now) pre).Within) ∧
    (Guarded step Counts (start window capFraction now) steps →
      (start window capFraction now).Within ∧
        Guarded step WithinAround (start window capFraction now) steps →
      0 ≤ capFraction ∧ Guarded step Keeps (start window capFraction now) steps) := by
  refine ⟨fun ⟨hcap, hkeeps⟩ pre hpre => ?_, fun hcounts ⟨hstart, haround⟩ => ?_⟩
  · exact within_run (inv_start window capFraction now) hcap
      ((within_start_iff window capFraction now).mpr hcap) (hallowed.of_prefix hpre)
      (hkeeps.of_prefix hpre)
  · refine ⟨(within_start_iff window capFraction now).mp hstart, ?_⟩
    refine ((hallowed.and hcounts).and haround).imp
      (I := fun h => h.limit.Holds h.now h.observed h.own) ?_ ?_
      ⟨.nil window now, .nil window now⟩
    · exact fun h s hg hholds => hg.1.2.holds_step hg.1.1.1 hholds
    · exact fun h s hg hholds => hg.2.keeps hg.1.2 hholds hg.1.1.1

/-! ## Small windows -/

instance (h : RateHistory) : Decidable h.Within := by
  unfold Within
  infer_instance

instance (h : RateHistory) (s : RateStep) : Decidable (h.Allowed s) := by
  unfold Allowed
  infer_instance

instance (h : RateHistory) (s : RateStep) (times : List SystemTime) :
    Decidable (h.Sees s times) := by
  unfold Sees
  infer_instance

instance (h : RateHistory) (s : RateStep) : Decidable (h.Slid s) := by
  unfold Slid
  infer_instance

instance (h : RateHistory) (s : RateStep) : Decidable (h.Keeps s) :=
  decidable_of_iff _ (h.keeps_iff s).symm

/-- Tasks are observed in the first `n` seconds, then one is verified. -/
def verifiedAfter (n : Nat) : List RateStep :=
  (List.range n).map (fun i => ⟨fromSecs i, .observedTask⟩) ++ [⟨fromSecs n, .ownVerification⟩]

/-- A fresh node with the defaults verifies the only task it has observed: nothing is
exceeded before, all of it after. -/
theorem first_task_exceeds_cap :
    Guarded step Allowed (start (fromSecs rateWindowSecs) rateCapPerHour 0) (verifiedAfter 1) ∧
      ¬ (run step (start (fromSecs rateWindowSecs) rateCapPerHour 0) (verifiedAfter 1)).Within := by
  decide +kernel

/-- Eleven tasks are observed and one is verified; an hour later two more are observed, and
the first two have left the window. -/
def slidingHour : List RateStep :=
  verifiedAfter 11 ++ [⟨fromSecs 3601, .observedTask⟩, ⟨fromSecs 3602, .observedTask⟩]

/-- After eleven observed tasks there is room for one verification, and the later tasks
replace those that leave. -/
theorem slidingHour_within_cap :
    (run step (start (fromSecs rateWindowSecs) rateCapPerHour 0) slidingHour).Within :=
  (within_cap_of_keeps (fromSecs rateWindowSecs) rateCapPerHour 0 slidingHour
    (by decide +kernel)).1 ⟨by decide +kernel, by decide +kernel⟩ _ List.prefix_rfl

end RateHistory

end Parseh.Verify
