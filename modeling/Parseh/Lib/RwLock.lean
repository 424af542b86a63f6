import Mathlib.Data.Fintype.Basic
import Mathlib.Logic.Function.Basic
import Parseh.Lib.Run

/-!
# Threads over reader-writer locks

A thread runs a list of operations, and `code` gives the lock instructions of an
operation.  A reader waits while a writer holds the lock or is queued for it; a
writer that does not get the lock queues for it.  A schedule is the list of the
threads that take a step.

* `ops_run`: a thread only ever has a rest of its operations to do;
* `step_alone`, `exists_run_to` and `exists_run_ops`: while the others neither hold
  nor queue for anything, a thread gets as far as it wants to;
* `Deadlocked.holder` and `Deadlocked.held_of_writer`: in a deadlock a holder waits
  itself, and a writer waits for a holder.
-/

namespace Parseh.Lib.RwLock

inductive Mode
  | read | write
  deriving DecidableEq

inductive Instr (L : Type)
  | acquire (l : L) (m : Mode)
  | release (l : L)
  deriving DecidableEq

/-- The operations left to a thread, its position in the first of them, and
whether it is queued for the write lock it wants next. -/
structure Thread (O : Type) where
  ops : List O
  pos : Nat
  queued : Bool
  deriving DecidableEq

variable {L O ι : Type} [DecidableEq L]

/-- The locks held after a list of instructions. -/
def heldAfter (is : List (Instr L)) : List (L × Mode) :=
  is.foldl (fun held i =>
    match i with
    | .acquire l m => (l, m) :: held
    | .release l => held.filter fun h => h.1 ≠ l) []

namespace Thread

variable (code : O → List (Instr L))

/-- A thread that has not begun. -/
def start (ops : List O) : Thread O := ⟨ops, 0, false⟩

/-- The instruction the thread is at. -/
def cur (th : Thread O) : Option (Instr L) :=
  match th.ops with
  | [] => none
  | op :: _ => (code op)[th.pos]?

/-- The locks the thread holds. -/
def held (th : Thread O) : List (L × Mode) :=
  match th.ops with
  | [] => []
  | op :: _ => heldAfter ((code op).take th.pos)

/-- The thread after its instruction. -/
def advance (th : Thread O) : Thread O :=
  match th.ops with
  | [] => th
  | op :: rest =>
    if th.pos + 1 < (code op).length then ⟨op :: rest, th.pos + 1, false⟩ else ⟨rest, 0, false⟩

end Thread

section Threads

variable (code : O → List (Instr L)) [Fintype ι] [DecidableEq ι]

/-- Some thread holds the lock. -/
def Held (s : ι → Thread O) (l : L) : Prop := ∃ t, ∃ h ∈ (s t).held code, h.1 = l

/-- Some thread holds the lock for writing. -/
def WriteHeld (s : ι → Thread O) (l : L) : Prop := ∃ t, (l, .write) ∈ (s t).held code

/-- Some writer is queued for the lock. -/
def QueuedFor (s : ι → Thread O) (l : L) : Prop :=
  ∃ t, (s t).queued = true ∧ (s t).cur code = some (.acquire l .write)

instance (s : ι → Thread O) (l : L) : Decidable (Held code s l) :=
  inferInstanceAs (Decidable (∃ t, ∃ h ∈ (s t).held code, h.1 = l))

instance (s : ι → Thread O) (l : L) : Decidable (WriteHeld code s l) :=
  inferInstanceAs (Decidable (∃ t, (l, .write) ∈ (s t).held code))

instance (s : ι → Thread O) (l : L) : Decidable (QueuedFor code s l) :=
  inferInstanceAs (Decidable (∃ t, (s t).queued = true ∧
    (s t).cur code = some (.acquire l .write)))

/-- The thread can not get the lock it is at. -/
def Blocked (s : ι → Thread O) (t : ι) : Prop :=
  match (s t).cur code with
  | some (.acquire l .read) => WriteHeld code s l ∨ QueuedFor code s l
  | some (.acquire l .write) => Held code s l
  | _ => False

instance Blocked.decide (s : ι → Thread O) (t : ι) : Decidable (Blocked code s t) :=
  match h : (s t).cur code with
  | some (.acquire l .read) =>
    decidable_of_iff (WriteHeld code s l ∨ QueuedFor code s l) (by simp [Blocked, h])
  | some (.acquire l .write) => decidable_of_iff (Held code s l) (by simp [Blocked, h])
  | some (.release _) => isFalse (by simp [Blocked, h])
  | none => isFalse (by simp [Blocked, h])

/-- The thread queues. -/
def queue (s : ι → Thread O) (t : ι) : ι → Thread O :=
  Function.update s t { s t with queued := true }

/-- One step of one thread: it gets its lock or releases one; a blocked writer
queues and a blocked reader waits. -/
def step (s : ι → Thread O) (t : ι) : ι → Thread O :=
  if Blocked code s t then
    match (s t).cur code with
    | some (.acquire _ .write) => queue s t
    | _ => s
  else Function.update s t ((s t).advance code)

/-- All unfinished threads are blocked, and there is one. -/
def Deadlocked (s : ι → Thread O) : Prop :=
  (∃ t, (s t).ops ≠ []) ∧ ∀ t, (s t).ops ≠ [] → Blocked code s t

instance (s : ι → Thread O) : Decidable (Deadlocked code s) :=
  inferInstanceAs (Decidable ((∃ t, (s t).ops ≠ []) ∧ ∀ t, (s t).ops ≠ [] → Blocked code s t))

/-! ## What every schedule keeps -/

variable {code}

omit [DecidableEq L] in
theorem Thread.ops_advance (th : Thread O) : (th.advance code).ops <:+ th.ops := by
  unfold Thread.advance
  split
  · exact List.suffix_refl _
  · next op rest h =>
    rw [h]
    split
    · exact List.suffix_refl _
    · exact List.suffix_cons op rest

omit [Fintype ι] [DecidableEq L] in
/-- A thread that queues stays where it is. -/
theorem queue_apply (s : ι → Thread O) (t u : ι) :
    (queue s t u).ops = (s u).ops ∧ (queue s t u).pos = (s u).pos ∧
      (queue s t u).queued = if u = t then true else (s u).queued := by
  unfold queue
  by_cases h : u = t
  · subst h
    simp
  · simp [h]

omit [Fintype ι] [DecidableEq L] in
@[simp] theorem ops_queue (s : ι → Thread O) (t u : ι) : (queue s t u).ops = (s u).ops :=
  (queue_apply s t u).1

omit [Fintype ι] in
@[simp] theorem held_queue (s : ι → Thread O) (t u : ι) :
    (queue s t u).held code = (s u).held code := by
  rw [Thread.held, Thread.held, ops_queue, (queue_apply s t u).2.1]

omit [Fintype ι] [DecidableEq L] in
@[simp] theorem cur_queue (s : ι → Thread O) (t u : ι) :
    (queue s t u).cur code = (s u).cur code := by
  rw [Thread.cur, Thread.cur, ops_queue, (queue_apply s t u).2.1]

/-- What a step can do to the threads. -/
theorem step_cases (code : O → List (Instr L)) (s : ι → Thread O) (t : ι) :
    step code s t = s ∨ step code s t = queue s t ∨
      step code s t = Function.update s t ((s t).advance code) := by
  unfold step
  by_cases hb : Blocked code s t
  · rw [if_pos hb]
    cases (s t).cur code with
    | none => exact .inl rfl
    | some i =>
      cases i with
      | release l => exact .inl rfl
      | acquire l m =>
        cases m with
        | read => exact .inl rfl
        | write => exact .inr (.inl rfl)
  · rw [if_neg hb]
    exact .inr (.inr rfl)

theorem ops_step (s : ι → Thread O) (t u : ι) : (step code s t u).ops <:+ (s u).ops := by
  by_cases hu : u = t
  · subst hu
    rcases step_cases code s u with h | h | h
    · rw [h]
    · rw [h, ops_queue]
    · rw [h, Function.update_self]
      exact Thread.ops_advance _
  · rcases step_cases code s t with h | h | h
    · rw [h]
    · rw [h, ops_queue]
    · rw [h, Function.update_of_ne hu]

/-- A thread has a rest of its operations to do. -/
theorem ops_run (s : ι → Thread O) (sched : List ι) (u : ι) :
    (run (step code) s sched u).ops <:+ (s u).ops :=
  run_invariant (I := fun s' => (s' u).ops <:+ (s u).ops)
    (fun s' t h => (ops_step s' t u).trans h) (List.suffix_refl _) sched

/-! ## A thread on its own -/

variable (code)

/-- No operation takes a lock it holds. -/
def NoReentry : Prop :=
  ∀ op i l m, (code op)[i]? = some (.acquire l m) → ∀ h ∈ heldAfter ((code op).take i), h.1 ≠ l

/-- Every thread but `t` holds no lock and is queued for none. -/
def Alone (s : ι → Thread O) (t : ι) : Prop :=
  ∀ u, u ≠ t → (s u).held code = [] ∧ (s u).queued = false

variable {code} {s : ι → Thread O} {t : ι}

omit [Fintype ι] in
/-- Alone, a thread is not blocked. -/
theorem not_blocked_alone (hre : NoReentry code) (h : Alone code s t)
    (hq : (s t).queued = false) : ¬ Blocked code s t := by
  -- a lock the thread is at is held by nobody: not by the others, and not by itself
  have hfree : ∀ l m, (s t).cur code = some (.acquire l m) → ¬ Held code s l := by
    rintro l m hcur ⟨u, hd, hmem, rfl⟩
    by_cases hu : u = t
    · subst hu
      unfold Thread.cur at hcur
      unfold Thread.held at hmem
      cases hops : (s u).ops with
      | nil => simp [hops] at hcur
      | cons op rest =>
        simp only [hops] at hcur hmem
        exact hre op _ _ m hcur hd hmem rfl
    · rw [(h u hu).1] at hmem
      cases hmem
  have hunqueued : ∀ l, ¬ QueuedFor code s l := by
    rintro l ⟨u, hu, -⟩
    by_cases hut : u = t
    · subst hut
      rw [hq] at hu
      cases hu
    · rw [(h u hut).2] at hu
      cases hu
  intro hb
  unfold Blocked at hb
  split at hb
  · next l hcur =>
    rcases hb with ⟨u, hu⟩ | hqueued
    · exact hfree l _ hcur ⟨u, _, hu, rfl⟩
    · exact hunqueued l hqueued
  · next l hcur => exact hfree l _ hcur hb
  · exact hb

theorem step_alone (hre : NoReentry code) (h : Alone code s t) (hq : (s t).queued = false) :
    step code s t = Function.update s t ((s t).advance code) := by
  rw [step, if_neg (not_blocked_alone hre h hq)]

omit [Fintype ι] in
theorem Alone.update (h : Alone code s t) (th : Thread O) :
    Alone code (Function.update s t th) t := by
  intro u hu
  rw [Function.update_of_ne hu]
  exact h u hu

/-- Alone, a thread gets to any position of its operation. -/
theorem exists_run_to (hre : NoReentry code) (h : Alone code s t) {op : O} {rest : List O}
    (hst : s t = ⟨op :: rest, 0, false⟩) {k : Nat} (hk : k < (code op).length) :
    ∃ sched, run (step code) s sched = Function.update s t ⟨op :: rest, k, false⟩ := by
  induction k with
  | zero =>
    refine ⟨[], ?_⟩
    rw [run_nil, ← hst, Function.update_eq_self]
  | succ k ih =>
    obtain ⟨sched, hrun⟩ := ih (Nat.lt_of_succ_lt hk)
    refine ⟨sched ++ [t], ?_⟩
    rw [run_append, run_cons, run_nil, hrun, step_alone hre (h.update _) (by simp),
      Function.update_self, Function.update_idem]
    simp [Thread.advance, hk]

/-- Alone, a thread gets through its operation. -/
theorem exists_run_op (hre : NoReentry code) (h : Alone code s t) {op : O} {rest : List O}
    (hst : s t = ⟨op :: rest, 0, false⟩) (hne : code op ≠ []) :
    ∃ sched, run (step code) s sched = Function.update s t ⟨rest, 0, false⟩ := by
  have hpos : 0 < (code op).length := List.length_pos_iff.mpr hne
  obtain ⟨sched, hrun⟩ := exists_run_to hre h hst (k := (code op).length - 1) (by omega)
  refine ⟨sched ++ [t], ?_⟩
  rw [run_append, run_cons, run_nil, hrun, step_alone hre (h.update _) (by simp),
    Function.update_self, Function.update_idem]
  have hlast : ¬ (code op).length - 1 + 1 < (code op).length := by omega
  simp [Thread.advance, hlast]

/-- Alone, a thread gets through any of its operations. -/
theorem exists_run_ops (hre : NoReentry code) (h : Alone code s t) {pre rest : List O}
    (hst : s t = ⟨pre ++ rest, 0, false⟩) (hne : ∀ op ∈ pre, code op ≠ []) :
    ∃ sched, run (step code) s sched = Function.update s t ⟨rest, 0, false⟩ := by
  induction pre generalizing s with
  | nil =>
    refine ⟨[], ?_⟩
    rw [run_nil]
    exact (Function.update_eq_self_iff.mpr hst.symm).symm
  | cons op pre ih =>
    have hst : s t = ⟨op :: (pre ++ rest), 0, false⟩ := hst
    obtain ⟨sched, hrun⟩ := exists_run_op hre h hst (hne op (by simp))
    obtain ⟨sched', hrun'⟩ := ih (h.update ⟨pre ++ rest, 0, false⟩) (Function.update_self ..)
      fun op' hop' => hne op' (by simp [hop'])
    refine ⟨sched ++ sched', ?_⟩
    rw [run_append, hrun, hrun', Function.update_idem]

/-! ## Threads at rest -/

variable (code) in
/-- No thread holds a lock or is queued for one. -/
def AtRest (s : ι → Thread O) : Prop := ∀ u, (s u).held code = [] ∧ (s u).queued = false

/-- From rest, a thread gets to any position of any of its operations; where it
holds nothing there, the threads are at rest again. -/
theorem AtRest.exists_run_at (hre : NoReentry code) (h : AtRest code s) {pre rest : List O}
    {op : O} (hst : s t = ⟨pre ++ op :: rest, 0, false⟩) (hne : ∀ op' ∈ pre, code op' ≠ [])
    {k : Nat} (hk : k < (code op).length) (hheld : heldAfter ((code op).take k) = []) :
    ∃ sched, run (step code) s sched = Function.update s t ⟨op :: rest, k, false⟩ ∧
      AtRest code (Function.update s t ⟨op :: rest, k, false⟩) := by
  have halone : Alone code s t := fun u _ => h u
  obtain ⟨sched, hrun⟩ := exists_run_ops hre halone hst hne
  obtain ⟨sched', hrun'⟩ := exists_run_to hre (halone.update ⟨op :: rest, 0, false⟩)
    (Function.update_self ..) hk
  refine ⟨sched ++ sched', ?_, fun u => ?_⟩
  · rw [run_append, hrun, hrun', Function.update_idem]
  · by_cases hu : u = t
    · subst hu
      rw [Function.update_self]
      exact ⟨hheld, rfl⟩
    · rw [Function.update_of_ne hu]
      exact h u

/-! ## Deadlocks -/

omit [Fintype ι] [DecidableEq ι] in
/-- In a deadlock every lock that is held is held by a thread that is blocked. -/
theorem Deadlocked.holder (h : Deadlocked code s) {l : L} {m : Mode}
    (hmem : (l, m) ∈ (s t).held code) : Blocked code s t := by
  refine h.2 t fun hnil => ?_
  rw [Thread.held, hnil] at hmem
  cases hmem

omit [Fintype ι] [DecidableEq ι] in
/-- In a deadlock a writer waits for a lock that is held. -/
theorem Deadlocked.held_of_writer (h : Deadlocked code s) {l : L}
    (hcur : (s t).cur code = some (.acquire l .write)) : Held code s l := by
  have hb : Blocked code s t := by
    refine h.2 t fun hnil => ?_
    simp [Thread.cur, hnil] at hcur
  simpa only [Blocked, hcur] using hb

omit [Fintype ι] [DecidableEq ι] in
/-- Threads that are all at a lock deadlock where every lock is held and has a
writer queued for it. -/
theorem deadlocked_of_jammed (hheld : ∀ l, Held code s l) (hqueued : ∀ l, QueuedFor code s l)
    (hne : (s t).ops ≠ [])
    (hat : ∀ u, (s u).ops ≠ [] → ∃ l m, (s u).cur code = some (.acquire l m)) :
    Deadlocked code s := by
  refine ⟨⟨t, hne⟩, fun u hu => ?_⟩
  obtain ⟨l, m, hcur⟩ := hat u hu
  cases m with
  | read =>
    simp only [Blocked, hcur]
    exact .inr (hqueued l)
  | write =>
    simp only [Blocked, hcur]
    exact hheld l

/-- A reader that nobody stops gets its lock. -/
theorem step_read {l : L} (hcur : (s t).cur code = some (.acquire l .read))
    (hw : ¬ WriteHeld code s l) (hq : ¬ QueuedFor code s l) :
    step code s t = Function.update s t ((s t).advance code) := by
  have hb : ¬ Blocked code s t := by
    simp only [Blocked, hcur]
    exact not_or.mpr ⟨hw, hq⟩
  rw [step, if_neg hb]

/-- A writer queues for a lock that is held. -/
theorem step_queue {l : L} (hcur : (s t).cur code = some (.acquire l .write))
    (hl : Held code s l) : step code s t = queue s t := by
  have hb : Blocked code s t := by
    simpa only [Blocked, hcur] using hl
  rw [step, if_pos hb]
  simp only [hcur]

end Threads

end Parseh.Lib.RwLock
