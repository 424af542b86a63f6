import Mathlib.Data.List.Count
import Parseh.Lib.Keyed
import Parseh.Lib.Run
import Parseh.Miner.VerifyBuffer

/-!
# The readiness tracker under concurrency (`miner`, `readiness_state.rs`)

The tracker keeps its state and its count of tasks behind two mutexes.  A call of
`task_started`, `task_finished` or `mark_recovered` takes them one after the
other, so another task may run between its two sections.  `SharedTracker.step` runs one
section; a call between its sections is a row of `pending`.

* `trackerInv_step`: an `Active` state without tasks and a `Ready` state with tasks
  are made good by a call that is still between its sections;
* `settled_of_safe`: whenever no call is in progress, `Active` means tasks, `Ready`
  means none, and `Stopped` is final, in every run of safe steps;
* `unsettled_of_unsafe`: a step that is not safe leaves a state that no return of
  the calls in progress makes good.
-/

namespace Parseh.Miner

open Parseh.Lib Parseh.Wire

namespace ReadinessTracker

/-! ## The sections -/

/-- `s as u8`. -/
def rank : ReadinessState → Nat
  | .initialised => 0
  | .connected => 1
  | .listening => 2
  | .ready => 3
  | .active => 4
  | .degraded => 5
  | .stopped => 6

/-- `mark_listening`: a step up only. -/
def markListening (t : ReadinessTracker) : ReadinessTracker :=
  if rank t.state < rank .listening then { t with state := .listening } else t

/-- `mark_degraded`; a stopped node stays stopped. -/
def markDegraded (t : ReadinessTracker) : ReadinessTracker :=
  if t.state = .stopped then t else { t with state := .degraded }

def markStopped (t : ReadinessTracker) : ReadinessTracker := { t with state := .stopped }

/-- The first section of `task_started`. -/
def countUp (t : ReadinessTracker) : ReadinessTracker := { t with inFlight := t.inFlight + 1 }

/-- The second section of `task_started`. -/
def activate (t : ReadinessTracker) : ReadinessTracker :=
  { t with state :=
      match t.state with
      | .ready | .listening | .connected => .active
      | s => s }

/-- The first section of `task_finished`. -/
def countDown (t : ReadinessTracker) : ReadinessTracker := { t with inFlight := t.inFlight - 1 }

/-- The second section of `task_finished`, entered when the count reached zero. -/
def idle (t : ReadinessTracker) : ReadinessTracker :=
  { t with state :=
      match t.state with
      | .active => .ready
      | s => s }

/-- The second section of `mark_recovered`, with the count its first has read. -/
def recover (t : ReadinessTracker) (inFlight : Nat) : ReadinessTracker :=
  { t with state :=
      match t.state with
      | .degraded => if 0 < inFlight then .active else .ready
      | s => s }

/-- Without another task in between, the sections make up the call. -/
theorem taskStarted_eq (t : ReadinessTracker) : t.taskStarted = t.countUp.activate := rfl

theorem taskFinished_eq (t : ReadinessTracker) :
    t.taskFinished = if t.countDown.inFlight = 0 then t.countDown.idle else t.countDown := by
  unfold taskFinished countDown idle
  dsimp only
  split <;> rfl

end ReadinessTracker

/-- The calls a task makes on the tracker. -/
inductive TrackerCall
  | markConnected | markListening | markReady | taskStarted | taskFinished | markDegraded
  | markRecovered | markStopped
  deriving DecidableEq

/-- The section a call has still to run. -/
inductive Pending
  | activate
  | idle
  | recover (inFlight : Nat)
  deriving DecidableEq

/-- The tracker and the calls in progress, by task.  The counters and the flag are
history variables: the `task_started` calls begun and returned, the
`task_finished` calls begun, and whether `mark_stopped` has run. -/
structure SharedTracker (T : Type) where
  tracker : ReadinessTracker
  pending : Keyed (Prod.fst : T × Pending → T)
  started : Nat
  returned : Nat
  finished : Nat
  stopped : Bool

/-- A task begins a call, or runs the section its call has still to run. -/
inductive TrackerStep (T : Type)
  | call (task : T) (c : TrackerCall)
  | resume (task : T)

namespace SharedTracker

variable {T : Type}

/-- A new tracker with no call in progress. -/
def new : SharedTracker T := ⟨.new, Keyed.empty, 0, 0, 0, false⟩

section

variable [DecidableEq T]

/-- Leave the call of `task` between its sections. -/
def wait (s : SharedTracker T) (task : T) (p : Pending) : SharedTracker T :=
  { s with pending := s.pending.insertOrIgnore (task, p) }

/-- The first section of a call. -/
def enter (s : SharedTracker T) (task : T) : TrackerCall → SharedTracker T
  | .markConnected => { s with tracker := s.tracker.markConnected }
  | .markListening => { s with tracker := s.tracker.markListening }
  | .markReady => { s with tracker := s.tracker.markReady }
  | .taskStarted =>
    { s with tracker := s.tracker.countUp, started := s.started + 1 }.wait task .activate
  | .taskFinished =>
    let s₁ := { s with tracker := s.tracker.countDown, finished := s.finished + 1 }
    if s₁.tracker.inFlight = 0 then s₁.wait task .idle else s₁
  | .markDegraded => { s with tracker := s.tracker.markDegraded }
  | .markRecovered => s.wait task (.recover s.tracker.inFlight)
  | .markStopped => { s with tracker := s.tracker.markStopped, stopped := true }

/-- The second section of a call. -/
def finish (s : SharedTracker T) : Pending → SharedTracker T
  | .activate => { s with tracker := s.tracker.activate, returned := s.returned + 1 }
  | .idle => { s with tracker := s.tracker.idle }
  | .recover n => { s with tracker := s.tracker.recover n }

/-- One section of one task.  A task in a call does not begin another, and one
that is in none has nothing to resume. -/
def step (s : SharedTracker T) : TrackerStep T → SharedTracker T
  | .call task c => if s.pending.contains task then s else s.enter task c
  | .resume task =>
    match s.pending.find? task with
    | none => s
    | some (_, p) => { s.finish p with pending := s.pending.retain fun r => r.1 ≠ task }

end

/-- Some call in progress has still to run the section `p`. -/
def Waiting (s : SharedTracker T) (p : Pending) : Prop := ∃ r ∈ s.pending.rows, r.2 = p

instance (s : SharedTracker T) (p : Pending) : Decidable (s.Waiting p) :=
  inferInstanceAs (Decidable (∃ r ∈ s.pending.rows, r.2 = p))

/-- No call is in progress. -/
def Quiescent (s : SharedTracker T) : Prop := s.pending.rows = []

instance (s : SharedTracker T) : Decidable s.Quiescent :=
  inferInstanceAs (Decidable (s.pending.rows = []))

/-- What the states promise. -/
structure Settled (s : SharedTracker T) : Prop where
  active : s.tracker.state = .active → 0 < s.tracker.inFlight
  ready : s.tracker.state = .ready → s.tracker.inFlight = 0
  stopped : s.stopped = true → s.tracker.state = .stopped

/-- Every `task_finished` matches a `task_started` that has returned. -/
def Matched [DecidableEq T] (s : SharedTracker T) : TrackerStep T → Prop
  | .call task .taskFinished => s.pending.contains task = false → s.finished < s.returned
  | _ => True

/-! ## The invariant -/

/-- What a call in progress will make good, and the balance of the counters. -/
structure TrackerInv (s : SharedTracker T) : Prop where
  balance : s.tracker.inFlight + s.finished = s.started
  starting : s.returned + s.pending.rows.countP (fun r => r.2 = .activate) = s.started
  matched : s.finished ≤ s.returned
  active : s.tracker.state = .active → 0 < s.tracker.inFlight ∨ s.Waiting .idle
  ready : s.tracker.state = .ready → s.tracker.inFlight = 0 ∨ s.Waiting .activate
  stopped : s.stopped = true → s.tracker.state = .stopped

/-- A call that keeps the promises, or leaves that to a call in progress:
`mark_ready` may not find tasks, and `mark_connected` may not follow
`mark_stopped`. -/
def SafeCall (s : SharedTracker T) : TrackerCall → Prop
  | .markConnected => s.stopped = false
  | .markReady => s.tracker.state = .initialised ∨ s.tracker.state = .connected ∨
      s.tracker.state = .listening → s.tracker.inFlight = 0 ∨ s.Waiting .activate
  | _ => True

/-- Likewise for a second section: `task_finished` may not find tasks that were
started since it counted, and `mark_recovered` may not rely on a count that has
changed from zero or to zero. -/
def SafeSection (s : SharedTracker T) : Pending → Prop
  | .activate => True
  | .idle => s.tracker.state = .active → s.tracker.inFlight = 0 ∨ s.Waiting .activate
  | .recover n => s.tracker.state = .degraded →
      (0 < n → 0 < s.tracker.inFlight ∨ s.Waiting .idle) ∧
      (n = 0 → s.tracker.inFlight = 0 ∨ s.Waiting .activate)

def Safe [DecidableEq T] (s : SharedTracker T) : TrackerStep T → Prop
  | .call task c => s.pending.contains task = false → s.SafeCall c
  | .resume task => ∀ r ∈ s.pending.find? task, s.SafeSection r.2

/-! ## One section -/

variable {s : SharedTracker T} {task : T} {p q : Pending}

/-- A section that only moves the state. -/
theorem TrackerInv.setState (h : TrackerInv s) {t : ReadinessTracker}
    (hcount : t.inFlight = s.tracker.inFlight)
    (hactive : t.state = .active → 0 < s.tracker.inFlight ∨ s.Waiting .idle)
    (hready : t.state = .ready → s.tracker.inFlight = 0 ∨ s.Waiting .activate)
    (hstopped : s.stopped = true → t.state = .stopped) :
    TrackerInv { s with tracker := t } where
  balance := by rw [hcount]; exact h.balance
  starting := h.starting
  matched := h.matched
  active := by rw [hcount]; exact hactive
  ready := by rw [hcount]; exact hready
  stopped := hstopped

/-- The count stays above the starts that have not returned, so a matched
`task_finished` finds it above zero. -/
theorem TrackerInv.inFlight_pos (h : TrackerInv s) (hm : s.finished < s.returned) :
    0 < s.tracker.inFlight := by
  have hb := h.balance
  have hst := h.starting
  omega

theorem trackerInv_markListening (h : TrackerInv s) :
    TrackerInv { s with tracker := s.tracker.markListening } := by
  unfold ReadinessTracker.markListening
  split
  · next hlow =>
    refine h.setState rfl (fun h => (nomatch h)) (fun h => (nomatch h)) fun hstop => ?_
    rw [h.stopped hstop] at hlow
    exact absurd hlow (by decide)
  · exact h

theorem trackerInv_markReady (h : TrackerInv s)
    (hs : s.tracker.state = .initialised ∨ s.tracker.state = .connected ∨
      s.tracker.state = .listening → s.tracker.inFlight = 0 ∨ s.Waiting .activate) :
    TrackerInv { s with tracker := s.tracker.markReady } := by
  have hstate : s.tracker.markReady.state = .ready ∧ (s.tracker.state = .initialised ∨
      s.tracker.state = .connected ∨ s.tracker.state = .listening) ∨
      s.tracker.markReady.state = s.tracker.state := by
    unfold ReadinessTracker.markReady
    cases s.tracker.state <;> simp
  rcases hstate with ⟨hready, hlow⟩ | hsame
  · refine h.setState rfl (fun ha => ?_) (fun _ => hs hlow) fun hstop => ?_
    · rw [hready] at ha
      cases ha
    · rw [h.stopped hstop] at hlow
      simp at hlow
  · rw [← hsame] at hs
    refine h.setState rfl ?_ ?_ ?_
    · rw [hsame]; exact h.active
    · rw [hsame]; exact h.ready
    · rw [hsame]; exact h.stopped

theorem trackerInv_markDegraded (h : TrackerInv s) :
    TrackerInv { s with tracker := s.tracker.markDegraded } := by
  unfold ReadinessTracker.markDegraded
  split
  · exact h
  · next hrun =>
    exact h.setState rfl (fun h => (nomatch h)) (fun h => (nomatch h))
      fun hstop => absurd (h.stopped hstop) hrun

/-- A start that has not returned is in the count. -/
theorem TrackerInv.inFlight_pos_of_waiting (h : TrackerInv s) (hw : s.Waiting .activate) :
    0 < s.tracker.inFlight := by
  obtain ⟨r, hr, hp⟩ := hw
  have hcount : 0 < s.pending.rows.countP fun r => r.2 = .activate :=
    List.countP_pos_iff.mpr ⟨r, hr, decide_eq_true hp⟩
  have hb := h.balance
  have hst := h.starting
  have hm := h.matched
  omega

theorem trackerInv_new : TrackerInv (new : SharedTracker T) where
  balance := rfl
  starting := rfl
  matched := Nat.le_refl _
  active h := nomatch h
  ready h := nomatch h
  stopped h := nomatch h

section Sections

variable [DecidableEq T]

theorem step_call {c : TrackerCall} (h : s.pending.contains task = false) :
    s.step (.call task c) = s.enter task c := by
  simp [step, h]

theorem step_busy {c : TrackerCall} (h : s.pending.contains task = true) :
    s.step (.call task c) = s := by
  simp [step, h]

theorem step_resume {task' : T} (h : s.pending.find? task = some (task', p)) :
    s.step (.resume task) =
      { s.finish p with pending := s.pending.retain fun r => r.1 ≠ task } := by
  simp [step, h]

theorem step_none (h : s.pending.find? task = none) : s.step (.resume task) = s := by
  simp [step, h]

theorem rows_wait (h : s.pending.contains task = false) :
    (s.wait task p).pending.rows = s.pending.rows ++ [(task, p)] :=
  Keyed.rows_insertOrIgnore h

theorem waiting_wait (h : s.pending.contains task = false) :
    (s.wait task p).Waiting q ↔ s.Waiting q ∨ p = q := by
  simp only [Waiting, rows_wait h, List.mem_append, List.mem_singleton]
  constructor
  · rintro ⟨r, hr | rfl, hq⟩
    · exact Or.inl ⟨r, hr, hq⟩
    · exact Or.inr hq
  · rintro (⟨r, hr, hq⟩ | hq)
    · exact ⟨r, Or.inl hr, hq⟩
    · exact ⟨_, Or.inr rfl, hq⟩

/-- Another section is still waited for when `p` has run. -/
theorem waiting_remove {task' : T} (hf : s.pending.find? task = some (task', p)) (hpq : p ≠ q)
    (h : s.Waiting q) : ∃ r ∈ (s.pending.retain fun r => r.1 ≠ task).rows, r.2 = q := by
  obtain ⟨r, hr, hq⟩ := h
  refine ⟨r, Keyed.mem_retain.mpr ⟨hr, decide_eq_true fun htask => ?_⟩, hq⟩
  have hsome : s.pending.find? task = some r := Keyed.find?_eq_some_iff.mpr ⟨hr, htask⟩
  rw [hf] at hsome
  cases hsome
  exact hpq hq

/-- The count of unfinished starts after one section has run. -/
theorem starting_remove {task' : T} (hf : s.pending.find? task = some (task', p)) :
    (s.pending.retain fun r => r.1 ≠ task).rows.countP (fun r => r.2 = .activate) +
      (if p = .activate then 1 else 0) =
        s.pending.rows.countP fun r => r.2 = .activate := by
  obtain ⟨hmem, hkey⟩ := Keyed.find?_eq_some_iff.mp hf
  have hkey : task' = task := hkey
  subst hkey
  have h := s.pending.countP_remove (fun r => r.2 = .activate) hmem
  simpa using h

/-- A section that starts no task leaves the starting ones as they are. -/
theorem TrackerInv.starting_of_remove {task' : T} (h : TrackerInv s)
    (hf : s.pending.find? task = some (task', p)) (hp : p ≠ .activate) :
    s.returned + (s.pending.retain fun r => r.1 ≠ task).rows.countP (fun r => r.2 = .activate) =
      s.started := by
  have hrem := starting_remove hf
  rw [if_neg hp, Nat.add_zero] at hrem
  rw [hrem]
  exact h.starting

theorem trackerInv_taskStarted (h : TrackerInv s) (hnot : s.pending.contains task = false) :
    TrackerInv (s.enter task .taskStarted) where
  balance := by
    have hb := h.balance
    simp only [enter, wait, ReadinessTracker.countUp]
    omega
  starting := by
    have hst := h.starting
    simp only [enter, wait]
    rw [Keyed.rows_insertOrIgnore hnot, List.countP_append, List.countP_singleton]
    simp only [decide_true, if_true]
    omega
  matched := h.matched
  active _ := Or.inl (Nat.succ_pos _)
  ready _ := Or.inr ((waiting_wait hnot).mpr (Or.inr rfl))
  stopped := h.stopped

theorem trackerInv_taskFinished (h : TrackerInv s) (hnot : s.pending.contains task = false)
    (hm : s.finished < s.returned) : TrackerInv (s.enter task .taskFinished) := by
  have hpos := h.inFlight_pos hm
  have hb := h.balance
  have hready : s.tracker.state = .ready → s.Waiting .activate :=
    fun hr => (h.ready hr).resolve_left (Nat.pos_iff_ne_zero.mp hpos)
  by_cases hzero : s.tracker.inFlight - 1 = 0
  · have henter : s.enter task .taskFinished =
        { s with tracker := s.tracker.countDown, finished := s.finished + 1 }.wait task .idle :=
      if_pos hzero
    rw [henter]
    refine ⟨?_, ?_, hm, fun _ => Or.inr ((waiting_wait hnot).mpr (Or.inr rfl)),
      fun _ => Or.inl hzero, h.stopped⟩
    · simp only [wait, ReadinessTracker.countDown]
      omega
    · simp only [wait]
      rw [Keyed.rows_insertOrIgnore hnot, List.countP_append, List.countP_singleton]
      exact h.starting
  · have henter : s.enter task .taskFinished =
        { s with tracker := s.tracker.countDown, finished := s.finished + 1 } :=
      if_neg hzero
    rw [henter]
    refine ⟨?_, h.starting, hm, fun _ => Or.inl (Nat.pos_of_ne_zero hzero),
      fun hr => Or.inr (hready hr), h.stopped⟩
    simp only [ReadinessTracker.countDown]
    omega

theorem trackerInv_markRecovered (h : TrackerInv s) (hnot : s.pending.contains task = false) :
    TrackerInv (s.enter task .markRecovered) where
  balance := h.balance
  starting := by
    simp only [enter, wait]
    rw [Keyed.rows_insertOrIgnore hnot, List.countP_append, List.countP_singleton]
    exact h.starting
  matched := h.matched
  active ha := (h.active ha).imp_right fun hw => (waiting_wait hnot).mpr (Or.inl hw)
  ready hr := (h.ready hr).imp_right fun hw => (waiting_wait hnot).mpr (Or.inl hw)
  stopped := h.stopped

theorem trackerInv_enter (h : TrackerInv s) (hnot : s.pending.contains task = false)
    {c : TrackerCall} (hm : s.Matched (.call task c)) (hs : s.Safe (.call task c)) :
    TrackerInv (s.enter task c) := by
  have hs := hs hnot
  cases c with
  | markConnected =>
    refine h.setState rfl (fun h => (nomatch h)) (fun h => (nomatch h)) fun hstop => ?_
    exact absurd (Eq.symm hs |>.trans hstop) Bool.false_ne_true
  | markListening => exact trackerInv_markListening h
  | markReady => exact trackerInv_markReady h hs
  | taskStarted => exact trackerInv_taskStarted h hnot
  | taskFinished => exact trackerInv_taskFinished h hnot (hm hnot)
  | markDegraded => exact trackerInv_markDegraded h
  | markRecovered => exact trackerInv_markRecovered h hnot
  | markStopped =>
    exact ⟨h.balance, h.starting, h.matched, fun h => (nomatch h), fun h => (nomatch h),
      fun _ => rfl⟩

theorem trackerInv_activate {task' : T} (h : TrackerInv s)
    (hf : s.pending.find? task = some (task', .activate)) :
    TrackerInv { s.finish .activate with pending := s.pending.retain fun r => r.1 ≠ task } where
  balance := h.balance
  starting := by
    have hst := h.starting
    have hrem := starting_remove hf
    simp only [if_true] at hrem
    simp only [finish]
    omega
  matched := Nat.le_succ_of_le h.matched
  active _ := by
    have hmem := (Keyed.find?_eq_some_iff.mp hf).1
    exact Or.inl (h.inFlight_pos_of_waiting ⟨_, hmem, rfl⟩)
  ready hr := by
    simp only [finish, ReadinessTracker.activate] at hr
    split at hr
    · cases hr
    · cases hr
    · cases hr
    · next hne _ _ => exact absurd hr hne
  stopped hstop := by
    simp only [finish, ReadinessTracker.activate, h.stopped hstop]

theorem trackerInv_idle {task' : T} (h : TrackerInv s)
    (hf : s.pending.find? task = some (task', .idle))
    (hs : s.tracker.state = .active → s.tracker.inFlight = 0 ∨ s.Waiting .activate) :
    TrackerInv { s.finish .idle with pending := s.pending.retain fun r => r.1 ≠ task } where
  balance := h.balance
  starting := h.starting_of_remove hf (by simp)
  matched := h.matched
  active ha := by
    simp only [finish, ReadinessTracker.idle] at ha
    split at ha
    · cases ha
    · next hne => exact absurd ha hne
  ready hr := by
    have hbefore : s.tracker.inFlight = 0 ∨ s.Waiting .activate := by
      simp only [finish, ReadinessTracker.idle] at hr
      split at hr
      · next hactive => exact hs hactive
      · exact h.ready hr
    exact hbefore.imp_right (waiting_remove hf (by decide))
  stopped hstop := by
    simp only [finish, ReadinessTracker.idle, h.stopped hstop]

theorem trackerInv_recover {task' : T} {n : Nat} (h : TrackerInv s)
    (hf : s.pending.find? task = some (task', .recover n))
    (hs : s.tracker.state = .degraded →
      (0 < n → 0 < s.tracker.inFlight ∨ s.Waiting .idle) ∧
      (n = 0 → s.tracker.inFlight = 0 ∨ s.Waiting .activate)) :
    TrackerInv { s.finish (.recover n) with
      pending := s.pending.retain fun r => r.1 ≠ task } where
  balance := h.balance
  starting := h.starting_of_remove hf (by simp)
  matched := h.matched
  active ha := by
    have hbefore : 0 < s.tracker.inFlight ∨ s.Waiting .idle := by
      simp only [finish, ReadinessTracker.recover] at ha
      split at ha
      · next hdeg =>
        split at ha
        · next hn => exact (hs hdeg).1 hn
        · cases ha
      · exact h.active ha
    exact hbefore.imp_right (waiting_remove hf (by simp))
  ready hr := by
    have hbefore : s.tracker.inFlight = 0 ∨ s.Waiting .activate := by
      simp only [finish, ReadinessTracker.recover] at hr
      split at hr
      · next hdeg =>
        split at hr
        · cases hr
        · next hn => exact (hs hdeg).2 (Nat.eq_zero_of_not_pos hn)
      · exact h.ready hr
    exact hbefore.imp_right (waiting_remove hf (by simp))
  stopped hstop := by
    simp only [finish, ReadinessTracker.recover, h.stopped hstop]

/-- **One section.**  A safe section of a matched run keeps the invariant. -/
theorem trackerInv_step {a : TrackerStep T} (hm : s.Matched a) (hs : s.Safe a)
    (h : TrackerInv s) : TrackerInv (s.step a) := by
  cases a with
  | call task c =>
    cases hnot : s.pending.contains task with
    | true =>
      rw [step_busy hnot]
      exact h
    | false =>
      rw [step_call hnot]
      exact trackerInv_enter h hnot hm hs
  | resume task =>
    cases hf : s.pending.find? task with
    | none =>
      rw [step_none hf]
      exact h
    | some r =>
      obtain ⟨task', p⟩ := r
      rw [step_resume hf]
      have hs := hs _ hf
      cases p with
      | activate => exact trackerInv_activate h hf
      | idle => exact trackerInv_idle h hf hs
      | recover n => exact trackerInv_recover h hf hs

theorem trackerInv_run (as : List (TrackerStep T)) (hm : Guarded step Matched new as)
    (hs : Guarded step Safe new as) : TrackerInv (run step new as) :=
  (hm.and hs).invariant (fun _ _ hg h => trackerInv_step hg.1 hg.2 h) trackerInv_new

/-- **The readiness tracker.**  In every run of tasks that match their
`task_finished` and take safe steps only, whenever no call is in progress an
`Active` tracker has tasks, a `Ready` one has none, and a stopped one is
`Stopped`. -/
theorem settled_of_safe (as : List (TrackerStep T)) (hm : Guarded step Matched new as)
    (hs : Guarded step Safe new as) (hq : (run step new as).Quiescent) :
    Settled (run step new as) := by
  have hinv := trackerInv_run as hm hs
  have hnone : ∀ p, ¬ (run step new as).Waiting p := by
    rintro p ⟨r, hr, -⟩
    rw [hq] at hr
    cases hr
  exact ⟨fun ha => (hinv.active ha).resolve_right (hnone _),
    fun hr => (hinv.ready hr).resolve_right (hnone _), hinv.stopped⟩

/-! ## A step that is not safe -/

/-- A broken promise that no call in progress will make good. -/
inductive Broken (s : SharedTracker T) : Prop
  | ready (state : s.tracker.state = .ready) (tasks : 0 < s.tracker.inFlight)
      (none : ¬ s.Waiting .activate)
  | active (state : s.tracker.state = .active) (tasks : s.tracker.inFlight = 0)
      (noStart : ¬ s.Waiting .activate) (noFinish : ¬ s.Waiting .idle)
  | revived (stopped : s.stopped = true) (state : s.tracker.state ≠ .stopped)

/-- Nothing new is waited for when a section has run. -/
theorem waiting_of_remove (h : ∃ r ∈ (s.pending.retain fun r => r.1 ≠ task).rows, r.2 = q) :
    s.Waiting q := by
  obtain ⟨r, hr, hq⟩ := h
  exact ⟨r, (Keyed.mem_retain.mp hr).1, hq⟩

theorem broken_resume (h : Broken s) (task : T) : Broken (s.step (.resume task)) := by
  cases hf : s.pending.find? task with
  | none =>
    rw [step_none hf]
    exact h
  | some r =>
    obtain ⟨task', p⟩ := r
    have hw : s.Waiting p := ⟨_, (Keyed.find?_eq_some_iff.mp hf).1, rfl⟩
    rw [step_resume hf]
    cases h with
    | ready state tasks none =>
      cases p with
      | activate => exact absurd hw none
      | idle =>
        exact .ready (by simp [finish, ReadinessTracker.idle, state]) tasks
          fun h => none (waiting_of_remove h)
      | recover n =>
        exact .ready (by simp [finish, ReadinessTracker.recover, state]) tasks
          fun h => none (waiting_of_remove h)
    | active state tasks noStart noFinish =>
      cases p with
      | activate => exact absurd hw noStart
      | idle => exact absurd hw noFinish
      | recover n =>
        exact .active (by simp [finish, ReadinessTracker.recover, state]) tasks
          (fun h => noStart (waiting_of_remove h)) fun h => noFinish (waiting_of_remove h)
    | revived stopped state =>
      cases p with
      | activate =>
        refine .revived stopped ?_
        simp only [finish, ReadinessTracker.activate]
        split <;> simp_all
      | idle =>
        refine .revived stopped ?_
        simp only [finish, ReadinessTracker.idle]
        split <;> simp_all
      | recover n =>
        refine .revived stopped ?_
        simp only [finish, ReadinessTracker.recover]
        split
        · split <;> simp
        · exact state

/-- An unsafe call breaks a promise for good. -/
theorem broken_enter {c : TrackerCall} (hs : ¬ s.SafeCall c) (task : T) :
    Broken (s.enter task c) := by
  cases c with
  | markConnected =>
    have hstop : s.stopped = true := by simpa [SafeCall] using hs
    exact .revived hstop (by simp [enter, ReadinessTracker.markConnected])
  | markReady =>
    simp only [SafeCall, Classical.not_imp, not_or] at hs
    obtain ⟨hlow, htasks, hwait⟩ := hs
    refine .ready ?_ (Nat.pos_of_ne_zero htasks) hwait
    rcases hlow with hlow | hlow | hlow <;> simp [enter, ReadinessTracker.markReady, hlow]
  | _ => exact absurd trivial hs

/-- And so does an unsafe second section. -/
theorem broken_finish (h : TrackerInv s) (hs : ¬ s.SafeSection p) (task : T) :
    Broken { s.finish p with pending := s.pending.retain fun r => r.1 ≠ task } := by
  cases p with
  | activate => exact absurd trivial hs
  | idle =>
    simp only [SafeSection, Classical.not_imp, not_or] at hs
    obtain ⟨hactive, htasks, hwait⟩ := hs
    exact .ready (by simp [finish, ReadinessTracker.idle, hactive]) (Nat.pos_of_ne_zero htasks)
      fun h => hwait (waiting_of_remove h)
  | recover n =>
    simp only [SafeSection, Classical.not_imp] at hs
    obtain ⟨hdeg, hs⟩ := hs
    rcases Nat.eq_zero_or_pos n with hn | hn
    · have hbad : ¬ (s.tracker.inFlight = 0 ∨ s.Waiting .activate) :=
        fun hok => hs ⟨fun hpos => absurd hn (Nat.pos_iff_ne_zero.mp hpos), fun _ => hok⟩
      obtain ⟨htasks, hwait⟩ := not_or.mp hbad
      exact .ready (by simp [finish, ReadinessTracker.recover, hdeg, hn])
        (Nat.pos_of_ne_zero htasks) fun h => hwait (waiting_of_remove h)
    · have hbad : ¬ (0 < s.tracker.inFlight ∨ s.Waiting .idle) :=
        fun hok => hs ⟨fun _ => hok, fun hzero => absurd hzero (Nat.pos_iff_ne_zero.mp hn)⟩
      obtain ⟨htasks, hwait⟩ := not_or.mp hbad
      refine .active (by simp [finish, ReadinessTracker.recover, hdeg, hn])
        (Nat.eq_zero_of_not_pos htasks) (fun hst => ?_) fun h => hwait (waiting_of_remove h)
      exact htasks (h.inFlight_pos_of_waiting (waiting_of_remove hst))

/-- An unsafe step breaks a promise for good. -/
theorem broken_of_unsafe (h : TrackerInv s) {a : TrackerStep T} (hs : ¬ s.Safe a) :
    Broken (s.step a) := by
  cases a with
  | call task c =>
    simp only [Safe, Classical.not_imp] at hs
    obtain ⟨hnot, hs⟩ := hs
    rw [step_call hnot]
    exact broken_enter hs task
  | resume task =>
    simp only [Safe, not_forall] at hs
    obtain ⟨⟨task', p⟩, hf, hs⟩ := hs
    have hf : s.pending.find? task = some (task', p) := hf
    rw [step_resume hf]
    exact broken_finish h hs task

/-- **The condition is exact.**  After a run of safe steps, a step that is not safe
breaks a promise, and it stays broken whichever way the calls in progress
return. -/
theorem unsettled_of_unsafe (as : List (TrackerStep T)) (hm : Guarded step Matched new as)
    (hs : Guarded step Safe new as) (a : TrackerStep T) (ha : ¬ (run step new as).Safe a)
    (returns : List T) :
    ¬ Settled (run step ((run step new as).step a) (returns.map .resume)) := by
  have hinv := trackerInv_run as hm hs
  have hbroken : Broken (run step ((run step new as).step a) (returns.map .resume)) := by
    generalize hstart : (run step new as).step a = s
    have hs : Broken s := hstart ▸ broken_of_unsafe hinv ha
    clear hstart
    induction returns generalizing s with
    | nil => exact hs
    | cons task returns ih => exact ih _ (broken_resume hs task)
  intro hsettled
  cases hbroken with
  | ready state tasks none => exact absurd (hsettled.ready state) (Nat.pos_iff_ne_zero.mp tasks)
  | active state tasks noStart noFinish =>
    exact absurd tasks (Nat.pos_iff_ne_zero.mp (hsettled.active state))
  | revived stopped state => exact state (hsettled.stopped stopped)

end Sections

/-! ## Runs of two tasks -/

instance (s : SharedTracker T) : Decidable s.Settled :=
  decidable_of_iff ((s.tracker.state = .active → 0 < s.tracker.inFlight) ∧
      (s.tracker.state = .ready → s.tracker.inFlight = 0) ∧
      (s.stopped = true → s.tracker.state = .stopped))
    ⟨fun h => ⟨h.1, h.2.1, h.2.2⟩, fun h => ⟨h.active, h.ready, h.stopped⟩⟩

instance Matched.decide [DecidableEq T] (s : SharedTracker T) :
    ∀ a : TrackerStep T, Decidable (s.Matched a)
  | .call _ .taskFinished => inferInstanceAs (Decidable (_ → _))
  | .call _ .markConnected | .call _ .markListening | .call _ .markReady | .call _ .taskStarted
  | .call _ .markDegraded | .call _ .markRecovered | .call _ .markStopped | .resume _ =>
    inferInstanceAs (Decidable True)

instance SafeCall.decide (s : SharedTracker T) : ∀ c, Decidable (s.SafeCall c)
  | .markConnected => inferInstanceAs (Decidable (_ = _))
  | .markReady => inferInstanceAs (Decidable (_ → _))
  | .markListening | .taskStarted | .taskFinished | .markDegraded | .markRecovered
  | .markStopped => inferInstanceAs (Decidable True)

instance SafeSection.decide (s : SharedTracker T) : ∀ p, Decidable (s.SafeSection p)
  | .activate => inferInstanceAs (Decidable True)
  | .idle => inferInstanceAs (Decidable (_ → _))
  | .recover _ => inferInstanceAs (Decidable (_ → _))

instance Safe.decide [DecidableEq T] (s : SharedTracker T) :
    ∀ a : TrackerStep T, Decidable (s.Safe a)
  | .call _ _ => inferInstanceAs (Decidable (_ → _))
  | .resume task => inferInstanceAs (Decidable (∀ r ∈ s.pending.find? task, s.SafeSection r.2))

/-- A call that nobody interrupts. -/
def whole (task : Nat) (c : TrackerCall) : List (TrackerStep Nat) :=
  [.call task c, .resume task]

/-- A task that starts before the node is ready is forgotten by `mark_ready`. -/
def earlyStart : List (TrackerStep Nat) := whole 1 .taskStarted ++ whole 2 .markReady

/-- Task 1 finishes, task 2 starts between the two sections, and task 1 then takes
the node back to `Ready`. -/
def overtakenFinish : List (TrackerStep Nat) :=
  whole 1 .markReady ++ whole 1 .taskStarted ++ [.call 1 .taskFinished] ++
    whole 2 .taskStarted ++ [.resume 1]

/-- The last task finishes after `mark_recovered` has read the count. -/
def staleRecovery : List (TrackerStep Nat) :=
  whole 1 .markReady ++ whole 1 .taskStarted ++ whole 1 .markDegraded ++
    [.call 2 .markRecovered] ++ whole 1 .taskFinished ++ [.resume 2]

/-- `mark_connected` after `mark_stopped`. -/
def revivedStop : List (TrackerStep Nat) := whole 1 .markStopped ++ whole 1 .markConnected

/-- The run is one of matched calls, and breaks a promise with no call in progress. -/
def Breaks (as : List (TrackerStep Nat)) : Prop :=
  Guarded step Matched new as ∧ (run step new as).Quiescent ∧ ¬ Settled (run step new as)

instance (as : List (TrackerStep Nat)) : Decidable (Breaks as) :=
  inferInstanceAs (Decidable (_ ∧ _ ∧ _))

theorem promises_broken :
    Breaks earlyStart ∧ Breaks overtakenFinish ∧ Breaks staleRecovery ∧ Breaks revivedStop := by
  decide +kernel

/-- Two tasks that overlap on a ready node. -/
def orderlyRun : List (TrackerStep Nat) :=
  whole 1 .markConnected ++ whole 1 .markReady ++ [.call 1 .taskStarted, .call 2 .taskStarted,
    .resume 2, .resume 1] ++ whole 1 .taskFinished ++ whole 2 .taskFinished

theorem orderlyRun_settled : Settled (run step new orderlyRun) :=
  settled_of_safe orderlyRun (by decide +kernel) (by decide +kernel) (by decide +kernel)

end SharedTracker

end Parseh.Miner
