import Mathlib.Data.List.Pairwise
import Parseh.Lib.Run
import Parseh.Miner.Node

/-!
# The rolling cap of a rate bucket

A `RateBucket` counts the calls since its window started and starts over when sixty
seconds have gone by.  What was let through before the restart is forgotten, also
where it is less than sixty seconds old.

* `windows`: where the bucket cuts a list of call times;
* `BucketLog.rolling_call_iff`: what one call needs so that the cap holds in every
  rolling window;
* `BucketLog.isChain_iff`: over a run, this compares the calls of neighbouring windows
  one by one;
* `rolling_cap_iff`: the call times at which the cap holds.
-/

namespace Parseh.Lib

/-! ## Counting in a sorted list -/

section Sorted

variable {l : List Nat} {p : Nat → Bool}

/-- What holds of all smaller elements holds of a prefix. -/
theorem lt_countP_iff (h : l.Pairwise (· ≤ ·)) (hp : ∀ u v, u ≤ v → p v = true → p u = true)
    {i : Nat} : i < l.countP p ↔ ∃ u, l[i]? = some u ∧ p u = true := by
  induction l generalizing i with
  | nil => simp
  | cons a l ih =>
    obtain ⟨ha, hl⟩ := List.pairwise_cons.mp h
    by_cases hpa : p a = true
    · rw [List.countP_cons_of_pos hpa]
      cases i with
      | zero => simp [hpa]
      | succ i => simpa using ih hl
    · have hzero : l.countP p = 0 := by
        rw [List.countP_eq_zero]
        exact fun u hu hpu => hpa (hp a u (ha u hu) hpu)
      rw [List.countP_cons_of_neg hpa, hzero]
      refine iff_of_false (Nat.not_lt_zero i) ?_
      rintro ⟨u, hu, hpu⟩
      rcases List.mem_cons.mp (List.mem_of_getElem? hu) with rfl | hmem
      · exact hpa hpu
      · exact hpa (hp a u (ha u hmem) hpu)

/-- The elements up to a bound come first. -/
theorem lt_countP_add_le_iff (h : l.Pairwise (· ≤ ·)) (c t i : Nat) :
    (i < l.countP fun u => u + c ≤ t) ↔ ∃ u, l[i]? = some u ∧ u + c ≤ t := by
  rw [lt_countP_iff h fun u v hle hv => ?_]
  · simp only [decide_eq_true_eq]
  · rw [decide_eq_true_eq] at hv ⊢
    omega

theorem countP_not_add_countP (l : List Nat) (p : Nat → Bool) :
    (l.countP fun u => !p u) + l.countP p = l.length := by
  rw [Nat.add_comm, List.length_eq_countP_add_countP p]
  simp

end Sorted

end Parseh.Lib

namespace Parseh.Miner

open Parseh.Lib Parseh.Wire

/-! ## The windows of the bucket -/

/-- Each time of the first list is sixty seconds before its partner in the second. -/
def MinuteApart (a b : List Nat) : Prop := ∀ p ∈ a.zip b, p.1 + rateLimitWindowMs / 1000 ≤ p.2

instance (a b : List Nat) : Decidable (MinuteApart a b) := List.decidableBAll _ _

/-- The calls of one window after the other; `calls` are those so far of a window that
began at `start`. -/
def windowsFrom (start : Nat) (calls : List Nat) : List Nat → List (List Nat)
  | [] => [calls]
  | t :: ts =>
    if start + rateLimitWindowMs / 1000 ≤ t then calls :: windowsFrom t [t] ts
    else windowsFrom start (calls ++ [t]) ts

/-- A window begins with the first call sixty seconds or more after the beginning of the
one before, the first of them at 0. -/
def windows (times : List Nat) : List (List Nat) := windowsFrom 0 [] times

/-- The calls of a window, up to the cap, against those of the next: with `m` of them, the
`i`-th against the call that comes `cap` places after it, the `i + (cap - m)`-th. -/
def Neighbours (cap : Nat) (a b : List Nat) : Prop :=
  MinuteApart (a.take cap) (b.drop (cap - (a.take cap).length))

instance (cap : Nat) (a b : List Nat) : Decidable (Neighbours cap a b) :=
  inferInstanceAs (Decidable (MinuteApart _ _))

/-- The call times at which the cap is kept.  A cap of `u32::MAX` refuses nothing, and all
calls count. -/
def CallsApart (cap : UInt32) (times : List Nat) : Prop :=
  if cap.toNat < 2 ^ 32 - 1 then (windows times).IsChain (Neighbours cap.toNat)
  else MinuteApart times (times.drop cap.toNat)

instance (cap : UInt32) (times : List Nat) : Decidable (CallsApart cap times) := by
  unfold CallsApart
  infer_instance

theorem minuteApart_iff {a b : List Nat} :
    MinuteApart a b ↔ ∀ (i u t : Nat), a[i]? = some u → b[i]? = some t →
      u + rateLimitWindowMs / 1000 ≤ t := by
  unfold MinuteApart
  constructor
  · intro h i u t hu ht
    exact h (u, t) (List.mem_of_getElem? (List.getElem?_zip_eq_some.mpr ⟨hu, ht⟩))
  · rintro h ⟨u, t⟩ hp
    obtain ⟨i, hi⟩ := List.mem_iff_getElem?.mp hp
    obtain ⟨hu, ht⟩ := List.getElem?_zip_eq_some.mp hi
    exact h i u t hu ht

theorem neighbours_iff {cap : Nat} {a b : List Nat} :
    Neighbours cap a b ↔ ∀ (i u t : Nat), (a.take cap)[i]? = some u →
      b[cap - (a.take cap).length + i]? = some t → u + rateLimitWindowMs / 1000 ≤ t := by
  simp only [Neighbours, minuteApart_iff, List.getElem?_drop]

/-- One call more in the later window has one partner at most. -/
theorem neighbours_concat {cap t : Nat} {a b : List Nat} :
    Neighbours cap a (b ++ [t]) ↔ Neighbours cap a b ∧
      ∀ (i u : Nat), cap - (a.take cap).length + i = b.length → (a.take cap)[i]? = some u →
        u + rateLimitWindowMs / 1000 ≤ t := by
  simp only [neighbours_iff]
  constructor
  · intro h
    refine ⟨fun i u v hu hv => h i u v hu ?_, fun i u hi hu => h i u t hu ?_⟩
    · rw [List.getElem?_append_left (List.getElem?_eq_some_iff.mp hv).1]
      exact hv
    · rw [hi, List.getElem?_concat_length]
  · rintro ⟨hold, hnew⟩ i u v hu hv
    by_cases hlt : cap - (a.take cap).length + i < b.length
    · rw [List.getElem?_append_left hlt] at hv
      exact hold i u v hu hv
    · have hlen := (List.getElem?_eq_some_iff.mp hv).1
      rw [List.length_append, List.length_singleton] at hlen
      have hi : cap - (a.take cap).length + i = b.length := by omega
      rw [hi, List.getElem?_concat_length] at hv
      exact Option.some.inj hv ▸ hnew i u hi hu

theorem neighbours_nil (cap : Nat) (a : List Nat) : Neighbours cap a [] := by
  simp [Neighbours, MinuteApart]

theorem isChain_nil_cons {cap : Nat} {ws : List (List Nat)} :
    ([] :: ws).IsChain (Neighbours cap) ↔ ws.IsChain (Neighbours cap) := by
  cases ws with
  | nil => simp
  | cons w ws =>
    rw [List.isChain_cons_cons]
    exact and_iff_right (by simp [Neighbours, MinuteApart])

/-! ## The rolling windows -/

/-- The times of the calls that are not reported over the cap. -/
def admittedTimes (cap : UInt32) : RateBucket → List UInt64 → List Nat
  | _, [] => []
  | b, t :: ts =>
    let (exceeded, b') := b.recordWithCap t cap
    if exceeded then admittedTimes cap b' ts else t.toNat :: admittedTimes cap b' ts

/-- How many of the times lie in `(t - 60 s, t]`. -/
def rolling (t : Nat) (times : List Nat) : Nat :=
  times.countP fun u => t < u + rateLimitWindowMs / 1000 ∧ u ≤ t

theorem rolling_append (t : Nat) (l l' : List Nat) :
    rolling t (l ++ l') = rolling t l + rolling t l' := List.countP_append

/-- The bucket, with what it has let through. -/
structure BucketLog where
  bucket : RateBucket := {}
  /-- Before the window was started last. -/
  before : List Nat := []
  /-- Since then. -/
  since : List Nat := []
  now : Nat := 0

namespace BucketLog

def admitted (l : BucketLog) : List Nat := l.before ++ l.since

/-- Does a call at `t` start the next window? -/
def restarts (l : BucketLog) (t : UInt64) : Bool :=
  t.toNat - l.bucket.windowStartedAt.toNat ≥ rateLimitWindowMs / 1000

/-- The calls of earlier windows, and of the one that the call at `t` falls into. -/
def earlier (l : BucketLog) (t : UInt64) : List Nat :=
  if l.restarts t then l.before ++ l.since else l.before

def current (l : BucketLog) (t : UInt64) : List Nat := if l.restarts t then [] else l.since

def overCap (cap : UInt32) (l : BucketLog) (t : UInt64) : Bool := (l.bucket.recordWithCap t cap).1

def call (cap : UInt32) (l : BucketLog) (t : UInt64) : BucketLog where
  bucket := (l.bucket.recordWithCap t cap).2
  before := l.earlier t
  since := l.current t ++ if l.overCap cap t then [] else [t.toNat]
  now := t.toNat

/-- The calls of earlier windows that are less than sixty seconds old. -/
def carried (l : BucketLog) (t : UInt64) : Nat :=
  (l.earlier t).countP fun u => t.toNat < u + rateLimitWindowMs / 1000

/-- A call that is let through while calls of an earlier window are less than sixty
seconds old has room beside them.  At the largest cap the counter saturates, and the
calls are not counted any more. -/
def Room (cap : UInt32) (l : BucketLog) (t : UInt64) : Prop :=
  l.overCap cap t = false → 0 < l.carried t ∨ cap.toNat = 2 ^ 32 - 1 →
    l.carried t + (l.current t).length + 1 ≤ cap.toNat

structure Inv (cap : UInt32) (l : BucketLog) : Prop where
  past : ∀ u ∈ l.admitted, u ≤ l.now
  started : ∀ u ∈ l.since, l.bucket.windowStartedAt.toNat ≤ u
  start : l.bucket.windowStartedAt.toNat ≤ l.now
  window : l.now < l.bucket.windowStartedAt.toNat + rateLimitWindowMs / 1000
  counted : cap.toNat < 2 ^ 32 - 1 → l.since.length ≤ l.bucket.count.toNat

/-- No rolling window holds more than the cap. -/
def RollingCap (cap : UInt32) (l : BucketLog) : Prop := ∀ t, rolling t l.admitted ≤ cap.toNat

section

variable {cap : UInt32} {l : BucketLog} {t : UInt64}

theorem inv_start : Inv cap {} := ⟨nofun, nofun, le_rfl, by decide, fun _ => Nat.zero_le _⟩

theorem earlier_append_current : l.earlier t ++ l.current t = l.admitted := by
  unfold earlier current admitted
  split <;> simp

theorem admitted_call :
    (l.call cap t).admitted = l.admitted ++ if l.overCap cap t then [] else [t.toNat] := by
  unfold admitted
  simp only [call]
  rw [← List.append_assoc, earlier_append_current]
  rfl

/-- Where the call leaves the start of the window and the counter. -/
theorem windowStartedAt_call :
    (l.call cap t).bucket.windowStartedAt.toNat =
      if l.restarts t then t.toNat else l.bucket.windowStartedAt.toNat := by
  simp only [call, RateBucket.recordWithCap, restarts, decide_eq_true_eq]
  split <;> rfl

theorem count_call :
    (l.call cap t).bucket.count.toNat =
      min ((if l.restarts t then 0 else l.bucket.count.toNat) + 1) (2 ^ 32 - 1) := by
  have hsize : UInt32.size = 2 ^ 32 := rfl
  simp only [call, RateBucket.recordWithCap, restarts, decide_eq_true_eq]
  split
  · exact UInt32.toNat_ofNat_of_lt (by omega)
  · exact UInt32.toNat_ofNat_of_lt (by omega)

theorem overCap_eq_false_iff :
    l.overCap cap t = false ↔ (l.call cap t).bucket.count.toNat ≤ cap.toNat := by
  have hexceeded : l.overCap cap t = decide ((l.call cap t).bucket.count > cap) := rfl
  rw [hexceeded, decide_eq_false_iff_not, ← UInt32.le_iff_toNat_le]
  exact UInt32.not_lt

theorem restarts_iff :
    l.restarts t = true ↔
      l.bucket.windowStartedAt.toNat + rateLimitWindowMs / 1000 ≤ t.toNat := by
  have h60 : rateLimitWindowMs / 1000 = 60 := rfl
  unfold restarts
  rw [decide_eq_true_iff, h60]
  omega

/-- The calls of the window the call falls into lie in it. -/
theorem Inv.current (hinv : Inv cap l) {u : Nat} (hu : u ∈ l.current t) :
    (l.call cap t).bucket.windowStartedAt.toNat ≤ u := by
  unfold BucketLog.current at hu
  rw [windowStartedAt_call]
  split at hu
  · cases hu
  · next h =>
    rw [if_neg h]
    exact hinv.started u hu

/-- Up to the largest cap, every call that is let through has been counted. -/
theorem Inv.length_current (hinv : Inv cap l) (hcap : cap.toNat < 2 ^ 32 - 1)
    (hexceeded : l.overCap cap t = false) :
    (l.current t).length + 1 ≤ (l.call cap t).bucket.count.toNat := by
  have hcount := hinv.counted hcap
  have hle := overCap_eq_false_iff.mp hexceeded
  rw [count_call] at hle ⊢
  unfold BucketLog.current
  split at hle
  · next h =>
    rw [if_pos h, if_pos h, List.length_nil]
    omega
  · next h =>
    rw [if_neg h, if_neg h]
    omega

theorem Inv.start_call (hinv : Inv cap l) (hle : l.now ≤ t.toNat) :
    (l.call cap t).bucket.windowStartedAt.toNat ≤ t.toNat := by
  rw [windowStartedAt_call]
  split
  · exact le_rfl
  · exact le_trans hinv.start hle

theorem Inv.call (hinv : Inv cap l) (hle : l.now ≤ t.toNat) : Inv cap (l.call cap t) := by
  refine ⟨fun u hu => ?_, fun u hu => ?_, ?_, ?_, fun hcap => ?_⟩
  · rw [admitted_call] at hu
    rcases List.mem_append.mp hu with hu | hu
    · exact le_trans (hinv.past u hu) hle
    · split at hu
      · cases hu
      · rw [List.mem_singleton.mp hu]
        exact le_rfl
  · rcases List.mem_append.mp hu with hu | hu
    · exact hinv.current hu
    · split at hu
      · cases hu
      · rw [List.mem_singleton.mp hu]
        exact hinv.start_call hle
  · exact hinv.start_call hle
  · have h60 : rateLimitWindowMs / 1000 = 60 := rfl
    rw [windowStartedAt_call]
    show t.toNat < _
    split
    · omega
    · next hno => exact Nat.lt_of_not_le fun h => hno (restarts_iff.mpr h)
  · show (l.current t ++ _).length ≤ _
    rw [List.length_append]
    cases hexceeded : l.overCap cap t with
    | false => exact hinv.length_current hcap hexceeded
    | true =>
      -- a call over the cap is counted, but not let through
      have hcount := hinv.counted hcap
      rw [count_call]
      unfold BucketLog.current
      split
      · simp
      · simp only [if_true, List.length_nil, Nat.add_zero]
        have hlt : l.bucket.count.toNat < 2 ^ 32 := l.bucket.count.toNat_lt
        omega

/-! ## Rolling windows -/

/-- What the rolling window of an admitted call holds at its own time. -/
theorem rolling_call (hinv : Inv cap l) (hle : l.now ≤ t.toNat) (hexceeded : l.overCap cap t = false) :
    rolling t.toNat (l.call cap t).admitted = l.carried t + (l.current t).length + 1 := by
  have hpast : ∀ u ∈ l.earlier t ++ l.current t, u ≤ t.toNat := by
    rw [earlier_append_current]
    exact fun u hu => le_trans (hinv.past u hu) hle
  have hcall := hinv.call hle
  have hearlier : rolling t.toNat (l.earlier t) = l.carried t := by
    refine List.countP_congr fun u hu => ?_
    simp [hpast u (List.mem_append_left _ hu)]
  have hcurrent : rolling t.toNat (l.current t) = (l.current t).length := by
    refine List.countP_eq_length.mpr fun u hu => ?_
    have hu' := hinv.current hu
    have hwin : t.toNat < _ := hcall.window
    simp only [decide_eq_true_eq]
    exact ⟨by omega, hpast u (List.mem_append_right _ hu)⟩
  have hself : rolling t.toNat [t.toNat] = 1 := by
    have h60 : rateLimitWindowMs / 1000 = 60 := rfl
    simp [rolling, h60]
  rw [admitted_call, hexceeded, ← earlier_append_current, rolling_append, rolling_append, hearlier,
    hcurrent]
  exact congrArg _ hself

/-- A later window holds no more of it. -/
theorem rolling_call_le {t' : Nat} (hinv : Inv cap l) (hle : l.now ≤ t.toNat)
    (hlater : t.toNat ≤ t') :
    rolling t' (l.call cap t).admitted ≤ rolling t.toNat (l.call cap t).admitted := by
  have hcall := hinv.call hle
  refine List.countP_mono_left fun u hu hin => ?_
  simp only [decide_eq_true_eq] at hin ⊢
  exact ⟨by omega, hcall.past u hu⟩

/-- **One call.** -/
theorem rolling_call_iff (hinv : Inv cap l) (hle : l.now ≤ t.toNat) (hcap : RollingCap cap l) :
    RollingCap cap (l.call cap t) ↔ Room cap l t := by
  constructor
  · intro h hexceeded _
    rw [← rolling_call hinv hle hexceeded]
    exact h t.toNat
  · intro hroom t'
    cases hexceeded : l.overCap cap t with
    | true =>
      rw [admitted_call, hexceeded]
      simpa using hcap t'
    | false =>
      have hsum : l.carried t + (l.current t).length + 1 ≤ cap.toNat := by
        by_cases hneeded : 0 < l.carried t ∨ cap.toNat = 2 ^ 32 - 1
        · exact hroom hexceeded hneeded
        · -- nothing is carried over, and the counter keeps the window
          have hlt : cap.toNat < 2 ^ 32 := cap.toNat_lt
          have hcounted := hinv.length_current (by omega) hexceeded
          have hle := overCap_eq_false_iff.mp hexceeded
          omega
      by_cases hlater : t.toNat ≤ t'
      · have hrolling := rolling_call_le hinv hle hlater
        rw [rolling_call hinv hle hexceeded] at hrolling
        exact le_trans hrolling hsum
      · have hself : rolling t' [t.toNat] = 0 := by simp [rolling, hlater]
        have hold := hcap t'
        rw [admitted_call, hexceeded, rolling_append]
        show rolling t' l.admitted + rolling t' [t.toNat] ≤ _
        omega

theorem RollingCap.of_call (h : RollingCap cap (l.call cap t)) : RollingCap cap l := by
  intro t'
  refine le_trans ?_ (h t')
  rw [admitted_call, rolling_append]
  exact Nat.le_add_right ..

theorem RollingCap.of_run {ts : List UInt64} (h : RollingCap cap (run (call cap) l ts)) :
    RollingCap cap l := by
  induction ts generalizing l with
  | nil => exact h
  | cons t ts ih => exact (ih h).of_call

theorem rolling_run_iff (hinv : Inv cap l) (hcap : RollingCap cap l) (ts : List UInt64)
    (hle : Guarded (call cap) (fun l t => l.now ≤ t.toNat) l ts) :
    RollingCap cap (run (call cap) l ts) ↔ Guarded (call cap) (Room cap) l ts := by
  induction ts generalizing l with
  | nil => exact iff_of_true hcap trivial
  | cons t ts ih =>
    have hstep := rolling_call_iff hinv hle.1 hcap
    constructor
    · intro h
      rw [run_cons] at h
      have hnext := h.of_run
      exact ⟨hstep.mp hnext, (ih (hinv.call hle.1) hnext hle.2).mp h⟩
    · rintro ⟨hroom, hrest⟩
      exact (ih (hinv.call hle.1) (hstep.mpr hroom) hle.2).mpr hrest

/-! ## Windows of calls -/

/-- The bucket has had the calls `b` in its window and `a` in the one before.  What it let
through earlier is too old to count. -/
structure Follows (cap : UInt32) (l : BucketLog) (a b : List Nat) : Prop where
  before : ∃ older, l.before = older ++ a.take cap.toNat ∧
    ∀ u ∈ older, u + rateLimitWindowMs / 1000 ≤ l.bucket.windowStartedAt.toNat
  since : l.since = b.take cap.toNat
  count : l.bucket.count.toNat = min b.length (2 ^ 32 - 1)
  previous : ∀ u ∈ a, u ≤ l.bucket.windowStartedAt.toNat
  calls : ∀ u ∈ b, u ≤ l.now
  sortedPrevious : a.Pairwise (· ≤ ·)
  sorted : b.Pairwise (· ≤ ·)

theorem follows_start (cap : UInt32) : Follows cap {} [] [] :=
  ⟨⟨[], by simp, nofun⟩, by simp, rfl, nofun, nofun, .nil, .nil⟩

section Windows

variable {a b : List Nat}

/-- A call that starts a window leaves the one before behind. -/
theorem Follows.restart (h : Follows cap l a b) (hle : l.now ≤ t.toNat)
    (hcap : cap.toNat < 2 ^ 32 - 1) (hre : l.restarts t = true) :
    Follows cap (l.call cap t) b [t.toNat] := by
  obtain ⟨older, hbefore, hold⟩ := h.before
  have hstart := restarts_iff.mp hre
  have hwin : (l.call cap t).bucket.windowStartedAt.toNat = t.toNat := by
    rw [windowStartedAt_call, if_pos hre]
  have hcount : (l.call cap t).bucket.count.toNat = 1 := by
    rw [count_call, if_pos hre]
    omega
  refine ⟨⟨l.before, ?_, fun u hu => ?_⟩, ?_, ?_, fun u hu => ?_, ?_, h.sorted,
    List.pairwise_singleton _ _⟩
  · simp only [call, earlier, if_pos hre, h.since]
  · rw [hwin]
    rw [hbefore] at hu
    rcases List.mem_append.mp hu with hu | hu
    · have := hold u hu
      omega
    · have := h.previous u (List.mem_of_mem_take hu)
      omega
  · have hover := @overCap_eq_false_iff cap l t
    rw [hcount] at hover
    simp only [call, current, if_pos hre, List.nil_append]
    cases hc : l.overCap cap t with
    | false => exact (List.take_of_length_le (by simpa using hover.mp hc)).symm
    | true =>
      have hzero : cap.toNat = 0 := by
        by_contra hne
        rw [hover.mpr (by omega)] at hc
        cases hc
      rw [hzero]
      rfl
  · rw [hcount]
    rfl
  · rw [hwin]
    exact (h.calls u hu).trans hle
  · intro u hu
    exact le_of_eq (List.mem_singleton.mp hu)

/-- Any other call joins the window. -/
theorem Follows.join (h : Follows cap l a b) (hle : l.now ≤ t.toNat)
    (hcap : cap.toNat < 2 ^ 32 - 1) (hre : ¬ l.restarts t = true) :
    Follows cap (l.call cap t) a (b ++ [t.toNat]) := by
  have hwin : (l.call cap t).bucket.windowStartedAt = l.bucket.windowStartedAt := by
    apply UInt64.toNat_inj.mp
    rw [windowStartedAt_call, if_neg hre]
  have hcount : (l.call cap t).bucket.count.toNat = min (b.length + 1) (2 ^ 32 - 1) := by
    rw [count_call, if_neg hre, h.count]
    omega
  refine ⟨?_, ?_, ?_, ?_, fun u hu => ?_, h.sortedPrevious, ?_⟩
  · rw [hwin]
    simpa only [call, earlier, if_neg hre] using h.before
  · have hover := @overCap_eq_false_iff cap l t
    rw [hcount] at hover
    simp only [call, current, if_neg hre, h.since]
    cases hc : l.overCap cap t with
    | false =>
      have hlen := hover.mp hc
      rw [List.take_of_length_le (by omega), List.take_of_length_le (by simp; omega)]
      rfl
    | true =>
      have hlen : cap.toNat ≤ b.length := by
        by_contra hne
        rw [hover.mpr (by omega)] at hc
        cases hc
      rw [List.take_append_of_le_length hlen]
      exact List.append_nil _
  · rw [hcount, List.length_append, List.length_singleton]
  · rw [hwin]
    exact h.previous
  · rcases List.mem_append.mp hu with hu | hu
    · exact (h.calls u hu).trans hle
    · exact le_of_eq (List.mem_singleton.mp hu)
  · rw [List.pairwise_append]
    refine ⟨h.sorted, List.pairwise_singleton _ _, fun u hu v hv => ?_⟩
    rw [List.mem_singleton.mp hv]
    exact (h.calls u hu).trans hle

/-- A call has room beside a window exactly when it is a minute after its partner there. -/
theorem room_beside_iff {n k t : Nat} {w : List Nat} (hw : w.Pairwise (· ≤ ·)) (hlen : w.length ≤ n) :
    (k < n → (w.countP fun u => t < u + rateLimitWindowMs / 1000) + k + 1 ≤ n) ↔
      ∀ i u, n - w.length + i = k → w[i]? = some u → u + rateLimitWindowMs / 1000 ≤ t := by
  have hold := lt_countP_add_le_iff hw (rateLimitWindowMs / 1000) t
  have hsum : (w.countP fun u => t < u + rateLimitWindowMs / 1000) +
      (w.countP fun u => u + rateLimitWindowMs / 1000 ≤ t) = w.length := by
    rw [← countP_not_add_countP w fun u => u + rateLimitWindowMs / 1000 ≤ t]
    congr 2
    funext u
    rw [← decide_not, decide_eq_decide]
    omega
  constructor
  · intro hroom i u hi hu
    have hlt := (List.getElem?_eq_some_iff.mp hu).1
    obtain ⟨u', hu', hle⟩ := (hold i).mp (by have := hroom (by omega); omega)
    rw [hu] at hu'
    exact Option.some.inj hu' ▸ hle
  · intro hpartner hk
    by_cases hfar : k < n - w.length
    · omega
    · have hlt : k - (n - w.length) < w.length := by omega
      have hget := List.getElem?_eq_getElem hlt
      have := (hold _).mpr ⟨_, hget, hpartner _ _ (by omega) hget⟩
      omega

/-- The calls of a window two back have no weight. -/
theorem carried_of_older {older w : List Nat} (hearlier : l.earlier t = older ++ w)
    (hold : ∀ u ∈ older, u + rateLimitWindowMs / 1000 ≤ t.toNat) :
    l.carried t = w.countP fun u => t.toNat < u + rateLimitWindowMs / 1000 := by
  have hzero : (older.countP fun u => t.toNat < u + rateLimitWindowMs / 1000) = 0 := by
    rw [List.countP_eq_zero]
    intro u hu
    have := hold u hu
    simpa using this
  rw [carried, hearlier, List.countP_append, hzero, Nat.zero_add]

/-- What the call after `k` others of its window needs beside the window `w`. -/
theorem room_iff {w : List Nat} {k : Nat} (hcap : cap.toNat < 2 ^ 32 - 1)
    (hw : w.Pairwise (· ≤ ·))
    (hcarried : l.carried t =
      (w.take cap.toNat).countP fun u => t.toNat < u + rateLimitWindowMs / 1000)
    (hcurrent : (l.current t).length = min cap.toNat k)
    (hcount : (l.call cap t).bucket.count.toNat = min (k + 1) (2 ^ 32 - 1)) :
    Room cap l t ↔ ∀ i u, cap.toNat - (w.take cap.toNat).length + i = k →
      (w.take cap.toNat)[i]? = some u → u + rateLimitWindowMs / 1000 ≤ t.toNat := by
  rw [← room_beside_iff (hw.sublist (List.take_sublist _ _)) (List.length_take_le _ _)]
  unfold Room
  rw [overCap_eq_false_iff, hcount, hcarried, hcurrent]
  constructor
  · intro hroom hk
    by_cases hnone : 0 < (w.take cap.toNat).countP fun u => t.toNat < u + rateLimitWindowMs / 1000
    · have := hroom (by omega) (Or.inl hnone)
      omega
    · omega
  · intro hroom hadmitted _
    have := hroom (by omega)
    omega

/-- The call that starts a window has the one before it beside it. -/
theorem Follows.room_restart_iff (h : Follows cap l a b) (hcap : cap.toNat < 2 ^ 32 - 1)
    (hre : l.restarts t = true) :
    Room cap l t ↔ Neighbours cap.toNat b [t.toNat] := by
  obtain ⟨older, hbefore, hold⟩ := h.before
  have hstart := restarts_iff.mp hre
  have hearlier : l.earlier t = l.before ++ b.take cap.toNat := by
    rw [earlier, if_pos hre, h.since]
  have hnone : (l.current t).length = min cap.toNat 0 := by
    rw [current, if_pos hre, Nat.min_zero, List.length_nil]
  have hold : ∀ u ∈ l.before, u + rateLimitWindowMs / 1000 ≤ t.toNat := by
    intro u hu
    rw [hbefore] at hu
    rcases List.mem_append.mp hu with hu | hu
    · have := hold u hu
      omega
    · have := h.previous u (List.mem_of_mem_take hu)
      omega
  rw [room_iff hcap h.sorted (carried_of_older hearlier hold) hnone
    (by rw [count_call, if_pos hre])]
  have hone := @neighbours_concat cap.toNat t.toNat b []
  rw [List.nil_append] at hone
  rw [hone]
  simp only [neighbours_nil, true_and, List.length_nil]

/-- Any other call has the same window beside it as those before it. -/
theorem Follows.room_join_iff (h : Follows cap l a b) (hinv : Inv cap l) (hle : l.now ≤ t.toNat)
    (hcap : cap.toNat < 2 ^ 32 - 1) (hre : ¬ l.restarts t = true) :
    Room cap l t ↔ ∀ i u, cap.toNat - (a.take cap.toNat).length + i = b.length →
      (a.take cap.toNat)[i]? = some u → u + rateLimitWindowMs / 1000 ≤ t.toNat := by
  obtain ⟨older, hbefore, hold⟩ := h.before
  have hearlier : l.earlier t = older ++ a.take cap.toNat := by
    rw [earlier, if_neg hre, hbefore]
  refine room_iff hcap h.sortedPrevious (carried_of_older hearlier fun u hu => ?_)
    (by rw [current, if_neg hre, h.since, List.length_take])
    (by rw [count_call, if_neg hre, h.count]; omega)
  have := hold u hu
  have := hinv.start
  omega

/-- **A run below the largest cap.**  Every call has room exactly when the calls of any two
neighbouring windows are a minute apart, each from its partner. -/
theorem isChain_iff (h : Follows cap l a b) (hinv : Inv cap l) (hcap : cap.toNat < 2 ^ 32 - 1)
    (ts : List UInt64) (hle : Guarded (call cap) (fun l t => l.now ≤ t.toNat) l ts) :
    (a :: windowsFrom l.bucket.windowStartedAt.toNat b (ts.map UInt64.toNat)).IsChain
        (Neighbours cap.toNat) ↔
      Neighbours cap.toNat a b ∧ Guarded (call cap) (Room cap) l ts := by
  induction ts generalizing l a b with
  | nil => simp [windowsFrom, Guarded]
  | cons t ts ih =>
    rw [List.map_cons, windowsFrom, Guarded]
    by_cases hre : l.restarts t = true
    · have hnext := ih (h.restart hle.1 hcap hre) (hinv.call hle.1) hle.2
      rw [windowStartedAt_call, if_pos hre] at hnext
      rw [if_pos (restarts_iff.mp hre), List.isChain_cons_cons, hnext,
        h.room_restart_iff hcap hre]
    · have hnext := ih (h.join hle.1 hcap hre) (hinv.call hle.1) hle.2
      rw [windowStartedAt_call, if_neg hre] at hnext
      rw [if_neg fun hstart => hre (restarts_iff.mpr hstart), hnext, neighbours_concat,
        h.room_join_iff hinv hle.1 hcap hre, and_assoc]

end Windows

theorem admitted_run (ts : List UInt64) :
    (run (call cap) l ts).admitted = l.admitted ++ admittedTimes cap l.bucket ts := by
  induction ts generalizing l with
  | nil => simp [admittedTimes]
  | cons t ts ih =>
    have hcons : admittedTimes cap l.bucket (t :: ts) =
        (if l.overCap cap t then [] else [t.toNat]) ++ admittedTimes cap (l.call cap t).bucket ts := by
      rw [admittedTimes]
      show (if l.overCap cap t then admittedTimes cap (l.call cap t).bucket ts
        else t.toNat :: admittedTimes cap (l.call cap t).bucket ts) = _
      split <;> rfl
    rw [run_cons, ih, admitted_call, hcons, List.append_assoc]

theorem guarded_now_le {ts : List UInt64} (h : (l.now :: ts.map UInt64.toNat).Pairwise (· ≤ ·)) :
    Guarded (call cap) (fun l t => l.now ≤ t.toNat) l ts := by
  induction ts generalizing l with
  | nil => exact trivial
  | cons t ts ih =>
    rw [List.map_cons, List.pairwise_cons] at h
    exact ⟨h.1 _ List.mem_cons_self, ih h.2⟩

end

end BucketLog

/-! ## The largest cap -/

/-- The counter saturates at the largest cap, and every call is let through. -/
theorem admittedTimes_max {cap : UInt32} (hcap : ¬ cap.toNat < 2 ^ 32 - 1) (b : RateBucket)
    (ts : List UInt64) : admittedTimes cap b ts = ts.map UInt64.toNat := by
  induction ts generalizing b with
  | nil => rfl
  | cons t ts ih =>
    have hnot : (b.recordWithCap t cap).1 = false := by
      have hle : (b.recordWithCap t cap).2.count ≤ cap := by
        rw [UInt32.le_iff_toNat_le]
        have := (b.recordWithCap t cap).2.count.toNat_lt
        omega
      exact decide_eq_false (UInt32.not_lt.mpr hle)
    rw [admittedTimes, List.map_cons, ← ih (b.recordWithCap t cap).2]
    dsimp only
    rw [hnot]
    rfl

/-- The calls up to `t` are those of the minute and those that are too old for it. -/
theorem countP_le_eq (t : Nat) (l : List Nat) :
    (l.countP fun u => u ≤ t) =
      (l.countP fun u => u + rateLimitWindowMs / 1000 ≤ t) + rolling t l := by
  have h60 : rateLimitWindowMs / 1000 = 60 := rfl
  unfold rolling
  induction l with
  | nil => rfl
  | cons u l ih =>
    simp only [List.countP_cons, ih, decide_eq_true_eq]
    split <;> split <;> split <;> omega

/-- No minute holds more than `n` of a sorted list exactly when elements `n` places apart
are a minute apart. -/
theorem rolling_le_iff {l : List Nat} (h : l.Pairwise (· ≤ ·)) (n : Nat) :
    (∀ t, rolling t l ≤ n) ↔ MinuteApart l (l.drop n) := by
  have hold := lt_countP_add_le_iff h (rateLimitWindowMs / 1000)
  have hpast := lt_countP_add_le_iff h 0
  simp only [Nat.add_zero] at hpast
  simp only [minuteApart_iff, List.getElem?_drop]
  constructor
  · intro hrolling i u t hu ht
    by_contra hnear
    have hin := (hpast t (n + i)).mpr ⟨t, ht, le_rfl⟩
    have hout : ¬ i < l.countP fun u => u + rateLimitWindowMs / 1000 ≤ t := by
      rw [hold]
      rintro ⟨u', hu', hle⟩
      rw [hu] at hu'
      obtain rfl := Option.some.inj hu'
      exact hnear hle
    have := countP_le_eq t l
    have := hrolling t
    omega
  · intro hapart t
    by_contra hmore
    have hlt : n + (l.countP fun u => u + rateLimitWindowMs / 1000 ≤ t) < l.countP fun u => u ≤ t := by
      have := countP_le_eq t l
      omega
    obtain ⟨v, hv, hvt⟩ := (hpast t _).mp hlt
    have hlen := (List.getElem?_eq_some_iff.mp hv).1
    have hget := List.getElem?_eq_getElem
      (show (l.countP fun u => u + rateLimitWindowMs / 1000 ≤ t) < l.length by omega)
    have hfar := hapart _ _ v hget hv
    exact lt_irrefl _ ((hold t _).mpr ⟨_, hget, hfar.trans hvt⟩)

/-- For every cap and every sequence of calls in order of time on a fresh bucket: no
rolling window of sixty seconds holds more admitted calls than the cap if and only if the
calls of any two neighbouring windows of the bucket are a minute apart, each from its
partner. -/
theorem rolling_cap_iff (cap : UInt32) (ts : List UInt64)
    (hsorted : (ts.map UInt64.toNat).Pairwise (· ≤ ·)) :
    (∀ t, rolling t (admittedTimes cap {} ts) ≤ cap.toNat) ↔
      CallsApart cap (ts.map UInt64.toNat) := by
  by_cases hcap : cap.toNat < 2 ^ 32 - 1
  · have hle : Guarded (BucketLog.call cap) (fun l t => l.now ≤ t.toNat) {} ts :=
      BucketLog.guarded_now_le (List.pairwise_cons.mpr ⟨fun _ _ => Nat.zero_le _, hsorted⟩)
    have hstart : BucketLog.RollingCap cap {} := fun _ => Nat.zero_le _
    have hrun := BucketLog.rolling_run_iff BucketLog.inv_start hstart ts hle
    have hadmitted : (run (BucketLog.call cap) {} ts).admitted = admittedTimes cap {} ts :=
      BucketLog.admitted_run ts
    unfold BucketLog.RollingCap at hrun
    rw [hadmitted] at hrun
    have hchain := BucketLog.isChain_iff (BucketLog.follows_start cap) BucketLog.inv_start hcap ts hle
    rw [isChain_nil_cons] at hchain
    rw [hrun, CallsApart, if_pos hcap]
    exact (hchain.trans (and_iff_right (neighbours_nil _ _))).symm
  · rw [CallsApart, if_neg hcap, admittedTimes_max hcap]
    exact rolling_le_iff hsorted cap.toNat

/-! ## Two bursts around a restart -/

/-- One call starts a window, the rest of the quota comes in its last second, and the
next quota one second later. -/
def twoBursts : List UInt64 :=
  1000 :: List.replicate 99 1059 ++ List.replicate 100 1060

/-- The sixty seconds that end with the second burst hold 199 results, none of which was
reported over the cap of 100. -/
theorem two_bursts_over_cap :
    (twoBursts.map UInt64.toNat).Pairwise (· ≤ ·) ∧
      rolling 1060 (admittedTimes rateLimitMaxResultsPerWindow {} twoBursts) = 199 ∧
      ¬ rolling 1060 (admittedTimes rateLimitMaxResultsPerWindow {} twoBursts) ≤
        rateLimitMaxResultsPerWindow.toNat := by
  decide +kernel

/-- A quota in two parts, and sixty calls more when the first part is a minute old. -/
def spacedBursts : List UInt64 :=
  List.replicate 60 1000 ++ List.replicate 40 1050 ++ List.replicate 60 1060

/-- The forty calls of the earlier window and the sixty of the later fill the cap. -/
theorem spaced_bursts_within_cap :
    rolling 1100 (admittedTimes rateLimitMaxResultsPerWindow {} spacedBursts) ≤
      rateLimitMaxResultsPerWindow.toNat :=
  (rolling_cap_iff rateLimitMaxResultsPerWindow spacedBursts (by decide +kernel)).mpr
    (by decide +kernel) 1100

end Parseh.Miner
