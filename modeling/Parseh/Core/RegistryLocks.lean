import Mathlib.Data.Fintype.Basic
import Parseh.Core.PeerRegistry
import Parseh.Lib.RwLock
import Parseh.Wire.Table

/-!
# The locks of the peer registry (`parseh-core`, `peer_registry.rs`)

The advertisements and the identities stand behind one `RwLock` each.  An
operation is here the sequence of locks it takes and gives back; any number of
threads run any operations, in any schedule.  The two readiness queries take the
advertisements first, `closest_peers` takes the identities first.

* `blocked_cases`: a blocked thread holds nothing, or it is a query that holds one
  lock and wants the other;
* `deadlock_free_iff`: no schedule jams the registry if and only if the threads do
  not include a readiness query, a `closest_peers`, a writer of the advertisements
  and a writer of the identities on four different threads.
-/

namespace Parseh.Core.RegistryLocks

open Parseh.Lib Parseh.Lib.RwLock Parseh.Wire

inductive Lock
  | ads | identities
  deriving DecidableEq

namespace Lock

def other : Lock → Lock
  | ads => identities
  | identities => ads

@[simp] theorem other_other (l : Lock) : l.other.other = l := by cases l <;> rfl

@[simp] theorem other_ne (l : Lock) : l.other ≠ l := by cases l <;> decide

theorem eq_other {l l' : Lock} (h : l' ≠ l) : l' = l.other := by
  cases l <;> cases l' <;> first | rfl | exact absurd rfl h

end Lock

/-- The operations of the registry. -/
inductive Op
  | upsert (ad : CapabilityAdvertisement)
  | recordIdentity (identity : PeerIdentity)
  | pruneExpired (now : UInt64)
  | verifyingKey (peerId : PeerId)
  | readyPeersForService (kind : ServiceKind)
  | readyPeersWithExternalInternet
  | closestPeers (target : PeerId) (k : Nat)
  | snapshot
  deriving DecidableEq

def reading (l : Lock) : List (Instr Lock) := [.acquire l .read, .release l]

def writing (l : Lock) : List (Instr Lock) := [.acquire l .write, .release l]

/-- Both read guards at once; the later one is dropped first. -/
def readingBoth (outer inner : Lock) : List (Instr Lock) :=
  [.acquire outer .read, .acquire inner .read, .release inner, .release outer]

variable {W : Type} (x : Externals W)

/-- The locks an operation takes.  `upsert` takes the identities only for an
advertisement with a key, and gives them back before it takes the advertisements. -/
def Op.locks : Op → List (Instr Lock)
  | .upsert ad =>
    (if (ad.verifyingKey x).isSome then writing .identities else []) ++ writing .ads
  | .recordIdentity _ => writing .identities
  | .pruneExpired _ => writing .ads
  | .verifyingKey _ => reading .identities
  | .readyPeersForService _ => readingBoth .ads .identities
  | .readyPeersWithExternalInternet => readingBoth .ads .identities
  | .closestPeers _ k => if k = 0 then [] else readingBoth .identities .ads
  | .snapshot => reading .ads

/-- The operation holds `l` while it takes the other lock. -/
def Op.Nests : Op → Lock → Prop
  | .readyPeersForService _, .ads => True
  | .readyPeersWithExternalInternet, .ads => True
  | .closestPeers _ k, .identities => k ≠ 0
  | _, _ => False

/-- The operation writes what `l` guards. -/
def Op.Writes : Op → Lock → Prop
  | .upsert _, .ads => True
  | .upsert ad, .identities => (ad.verifyingKey x).isSome
  | .recordIdentity _, .identities => True
  | .pruneExpired _, .ads => True
  | _, _ => False

/-- The operations of a program that take a lock at all. -/
def locking (ops : List Op) : List Op := ops.filter fun op => op.locks x ≠ []

/-- The threads before their first lock. -/
def start {ι : Type} (prog : ι → List Op) : ι → Thread Op :=
  fun t => Thread.start (locking x (prog t))

/-! ## The lock sequences -/

variable {x}

theorem locks_of_nests {op : Op} {l : Lock} (h : op.Nests l) :
    op.locks x = readingBoth l l.other := by
  cases op <;> cases l <;> simp_all [Op.Nests, Op.locks, Lock.other]

/-- The five lock sequences. -/
theorem locks_cases (op : Op) :
    op.locks x = [] ∨ (∃ l, op.locks x = reading l) ∨ (∃ l, op.locks x = writing l ∧ op.Writes x l) ∨
      (op.locks x = writing .identities ++ writing .ads ∧ ∀ l, op.Writes x l) ∨
      ∃ l, op.locks x = readingBoth l l.other ∧ op.Nests l := by
  cases op with
  | upsert ad =>
    by_cases h : (ad.verifyingKey x).isSome
    · refine .inr (.inr (.inr (.inl ⟨by simp [Op.locks, h], fun l => ?_⟩)))
      cases l
      · exact trivial
      · exact h
    · exact .inr (.inr (.inl ⟨.ads, by simp [Op.locks, h], trivial⟩))
  | recordIdentity identity => exact .inr (.inr (.inl ⟨.identities, rfl, trivial⟩))
  | pruneExpired now => exact .inr (.inr (.inl ⟨.ads, rfl, trivial⟩))
  | verifyingKey peerId => exact .inr (.inl ⟨.identities, rfl⟩)
  | readyPeersForService kind => exact .inr (.inr (.inr (.inr ⟨.ads, rfl, trivial⟩)))
  | readyPeersWithExternalInternet => exact .inr (.inr (.inr (.inr ⟨.ads, rfl, trivial⟩)))
  | closestPeers target k =>
    by_cases h : k = 0
    · exact .inl (by simp [Op.locks, h])
    · exact .inr (.inr (.inr (.inr ⟨.identities, by simp [Op.locks, h, Lock.other], h⟩)))
  | snapshot => exact .inr (.inl ⟨.ads, rfl⟩)

/-- Where an operation takes a lock it holds nothing, or it takes its second read
lock. -/
theorem nests_of_held {op : Op} {i : Nat} {l : Lock} {m : Mode}
    (h : (op.locks x)[i]? = some (.acquire l m)) :
    heldAfter ((op.locks x).take i) = [] ∨
      m = .read ∧ op.Nests l.other ∧ heldAfter ((op.locks x).take i) = [(l.other, .read)] := by
  rcases locks_cases (x := x) op with he | ⟨l', he⟩ | ⟨l', he, -⟩ | ⟨he, -⟩ | ⟨l', he, hn⟩
  · simp [he] at h
  all_goals rw [he] at h ⊢
  · rcases i with _ | _ | i <;> simp_all [reading, heldAfter]
  · rcases i with _ | _ | i <;> simp_all [writing, heldAfter]
  · rcases i with _ | _ | _ | _ | i <;> simp_all [writing, heldAfter]
  · rcases i with _ | _ | _ | _ | i <;> simp_all [readingBoth, heldAfter]
    obtain ⟨rfl, rfl⟩ := h
    simpa using hn

theorem writes_of_acquire {op : Op} {l : Lock} (h : .acquire l .write ∈ op.locks x) :
    op.Writes x l := by
  rcases locks_cases (x := x) op with he | ⟨l', he⟩ | ⟨l', he, hw⟩ | ⟨he, hw⟩ | ⟨l', he, -⟩
  · simp [he] at h
  · simp [he, reading] at h
  · obtain rfl : l = l' := by simpa [he, writing] using h
    exact hw
  · exact hw l
  · simp [he, readingBoth] at h

/-- A writer takes its write lock while it holds nothing. -/
theorem exists_write {op : Op} {l : Lock} (h : op.Writes x l) :
    ∃ k, heldAfter ((op.locks x).take k) = [] ∧ (op.locks x)[k]? = some (.acquire l .write) := by
  cases op <;> cases l <;> simp only [Op.Writes] at h
  · by_cases hk : (‹CapabilityAdvertisement›.verifyingKey x).isSome
    · exact ⟨2, by simp [Op.locks, writing, heldAfter, hk]⟩
    · exact ⟨0, by simp [Op.locks, writing, heldAfter, hk]⟩
  · exact ⟨0, by simp [Op.locks, writing, heldAfter, h]⟩
  · exact ⟨0, by simp [Op.locks, writing, heldAfter]⟩
  · exact ⟨0, by simp [Op.locks, writing, heldAfter]⟩

theorem exists_first {op : Op} (h : op.locks x ≠ []) :
    ∃ l m, (op.locks x)[0]? = some (.acquire l m) := by
  rcases locks_cases (x := x) op with he | ⟨l, he⟩ | ⟨l, he, -⟩ | ⟨he, -⟩ | ⟨l, he, -⟩
  · exact absurd he h
  · exact ⟨l, .read, by rw [he]; rfl⟩
  · exact ⟨l, .write, by rw [he]; rfl⟩
  · exact ⟨.identities, .write, by rw [he]; rfl⟩
  · exact ⟨l, .read, by rw [he]; rfl⟩

theorem noReentry : NoReentry (Op.locks x) := by
  intro op i l m h hd hmem
  rcases nests_of_held h with he | ⟨-, -, he⟩
  · simp [he] at hmem
  · obtain rfl : hd = (l.other, .read) := by simpa [he] using hmem
    exact Lock.other_ne l

/-! ## A deadlock needs four threads -/

section

variable {ι : Type} {s : ι → Thread Op} {t : ι}

theorem mem_ops_of_cur {i : Instr Lock} (h : (s t).cur (Op.locks x) = some i) :
    ∃ op ∈ (s t).ops, i ∈ op.locks x := by
  unfold Thread.cur at h
  cases hops : (s t).ops with
  | nil => simp [hops] at h
  | cons op rest =>
    simp only [hops] at h
    exact ⟨op, by simp, List.mem_of_getElem? h⟩

/-- A blocked thread is at a lock; it holds nothing, or it is a query that wants
its second lock. -/
theorem blocked_cases (hb : Blocked (Op.locks x) s t) :
    ∃ l m, (s t).cur (Op.locks x) = some (.acquire l m) ∧
      ((s t).held (Op.locks x) = [] ∨ m = .read ∧ (∃ op ∈ (s t).ops, op.Nests l.other) ∧
        (s t).held (Op.locks x) = [(l.other, .read)]) := by
  have hacq : ∃ l m, (s t).cur (Op.locks x) = some (.acquire l m) := by
    unfold Blocked at hb
    split at hb
    · next l h => exact ⟨l, .read, h⟩
    · next l h => exact ⟨l, .write, h⟩
    · exact hb.elim
  obtain ⟨l, m, hcur⟩ := hacq
  refine ⟨l, m, hcur, ?_⟩
  unfold Thread.cur at hcur
  unfold Thread.held
  cases hops : (s t).ops with
  | nil => simp [hops] at hcur
  | cons op rest =>
    simp only [hops] at hcur
    rcases nests_of_held hcur with he | ⟨hm, hn, he⟩
    · exact .inl he
    · exact .inr ⟨hm, ⟨op, by simp, hn⟩, he⟩

/-- In a deadlock nobody holds a write lock. -/
theorem not_writeHeld (hd : Deadlocked (Op.locks x) s) (l : Lock) :
    ¬ WriteHeld (Op.locks x) s l := by
  rintro ⟨u, hu⟩
  obtain ⟨l', -, -, he | ⟨-, -, he⟩⟩ := blocked_cases (hd.holder hu)
  · simp [he] at hu
  · simp [he] at hu

/-- A lock held in a deadlock is held by a query that waits for a writer of the
other lock, and the other lock is held too. -/
theorem waits_of_held (hd : Deadlocked (Op.locks x) s) {l : Lock} (hl : Held (Op.locks x) s l) :
    (∃ q, (s q).cur (Op.locks x) = some (.acquire l.other .read) ∧ ∃ op ∈ (s q).ops, op.Nests l) ∧
    (∃ w, (s w).cur (Op.locks x) = some (.acquire l.other .write) ∧
      ∃ op ∈ (s w).ops, op.Writes x l.other) ∧ Held (Op.locks x) s l.other := by
  obtain ⟨q, ⟨l', m⟩, hmem, rfl⟩ := hl
  have hb := hd.holder hmem
  obtain ⟨l, m', hcur, he | ⟨rfl, hnests, he⟩⟩ := blocked_cases hb
  · simp [he] at hmem
  obtain ⟨rfl, rfl⟩ : l' = l.other ∧ m = .read := by simpa [he] using hmem
  rw [Lock.other_other]
  refine ⟨⟨q, hcur, hnests⟩, ?_⟩
  -- the query waits for a queued writer, and the writer for a holder
  have hqueued : QueuedFor (Op.locks x) s l := by
    simp only [Blocked, hcur] at hb
    exact hb.resolve_left (not_writeHeld hd l)
  obtain ⟨w, -, hw⟩ := hqueued
  have hheld := hd.held_of_writer hw
  obtain ⟨op', hop', hacq⟩ := mem_ops_of_cur hw
  exact ⟨⟨w, hw, op', hop', writes_of_acquire hacq⟩, hheld⟩

/-- In a deadlock some lock is held. -/
theorem exists_held (hd : Deadlocked (Op.locks x) s) : ∃ l, Held (Op.locks x) s l := by
  obtain ⟨t, ht⟩ := hd.1
  have hb := hd.2 t ht
  obtain ⟨l, m, hcur, -⟩ := blocked_cases hb
  refine ⟨l, ?_⟩
  cases m with
  | write => simpa only [Blocked, hcur] using hb
  | read =>
    simp only [Blocked, hcur] at hb
    obtain ⟨w, -, hw⟩ := hb.resolve_left (not_writeHeld hd l)
    exact hd.held_of_writer hw

end

/-- A readiness query, a `closest_peers`, a writer of the advertisements and a
writer of the identities, on four different threads. -/
def FourWay {ι : Type} (x : Externals W) (prog : ι → List Op) : Prop :=
  ∃ t₁ t₂ t₃ t₄, [t₁, t₂, t₃, t₄].Nodup ∧ (∃ op ∈ prog t₁, op.Nests .ads) ∧
    (∃ op ∈ prog t₂, op.Nests .identities) ∧ (∃ op ∈ prog t₃, op.Writes x .ads) ∧
    ∃ op ∈ prog t₄, op.Writes x .identities

section

variable {ι : Type} [Fintype ι] [DecidableEq ι] {prog : ι → List Op}

theorem mem_prog_of_run (sched : List ι) {t : ι} {op : Op}
    (h : op ∈ (run (step (Op.locks x)) (start x prog) sched t).ops) : op ∈ prog t :=
  (List.mem_filter.mp ((ops_run (start x prog) sched t).subset h)).1

/-- A deadlock has the four threads. -/
theorem fourWay_of_deadlocked (sched : List ι)
    (hd : Deadlocked (Op.locks x) (run (step (Op.locks x)) (start x prog) sched)) :
    FourWay x prog := by
  -- whichever lock is held, both are
  have hboth : ∀ l, Held (Op.locks x) (run (step (Op.locks x)) (start x prog) sched) l := by
    obtain ⟨l, hl⟩ := exists_held hd
    intro l'
    by_cases h : l' = l
    · exact h ▸ hl
    · rw [Lock.eq_other h]
      exact (waits_of_held hd hl).2.2
  obtain ⟨⟨t₁, hc₁, op₁, ho₁, hn₁⟩, ⟨t₄, hc₄, op₄, ho₄, hw₄⟩, -⟩ := waits_of_held hd (hboth .ads)
  obtain ⟨⟨t₂, hc₂, op₂, ho₂, hn₂⟩, ⟨t₃, hc₃, op₃, ho₃, hw₃⟩, -⟩ :=
    waits_of_held hd (hboth .identities)
  refine ⟨t₁, t₂, t₃, t₄, ?_, ⟨op₁, mem_prog_of_run sched ho₁, hn₁⟩,
    ⟨op₂, mem_prog_of_run sched ho₂, hn₂⟩, ⟨op₃, mem_prog_of_run sched ho₃, hw₃⟩,
    ⟨op₄, mem_prog_of_run sched ho₄, hw₄⟩⟩
  -- they wait for different things
  have hne : ∀ {t u : ι} {i j : Instr Lock},
      (run (step (Op.locks x)) (start x prog) sched t).cur (Op.locks x) = some i →
      (run (step (Op.locks x)) (start x prog) sched u).cur (Op.locks x) = some j → i ≠ j → t ≠ u := by
    rintro t u i j hi hj hij rfl
    exact hij (Option.some.inj (hi.symm.trans hj))
  simp only [List.nodup_cons, List.mem_cons, List.not_mem_nil, or_false, not_or, not_false_eq_true,
    List.nodup_nil, and_true]
  exact ⟨⟨hne hc₁ hc₂ (by decide), hne hc₁ hc₃ (by decide), hne hc₁ hc₄ (by decide)⟩,
    ⟨hne hc₂ hc₃ (by decide), hne hc₂ hc₄ (by decide)⟩, hne hc₃ hc₄ (by decide)⟩

/-! ## Four threads suffice -/

/-- Nobody holds a lock, and every thread is done or in front of one. -/
structure Ready (x : Externals W) (s : ι → Thread Op) : Prop where
  atRest : AtRest (Op.locks x) s
  inFront : ∀ u, (s u).ops ≠ [] → ∃ l m, (s u).cur (Op.locks x) = some (.acquire l m)

omit [Fintype ι] [DecidableEq ι] in
theorem ready_start : Ready x (start x prog) := by
  constructor
  · intro u
    refine ⟨?_, rfl⟩
    unfold start Thread.start Thread.held
    cases locking x (prog u) <;> rfl
  · intro u hu
    obtain ⟨op, rest, hops⟩ := List.exists_cons_of_ne_nil hu
    have hmem : op ∈ locking x (prog u) := by
      show op ∈ (start x prog u).ops
      simp [hops]
    have hne : op.locks x ≠ [] := by simpa using (List.mem_filter.mp hmem).2
    obtain ⟨l, m, hfirst⟩ := exists_first hne
    refine ⟨l, m, ?_⟩
    simp only [Thread.cur, hops]
    exact hfirst

/-- A thread gets to any lock of any of its operations that it takes while it holds
nothing. -/
theorem Ready.exists_run {s : ι → Thread Op} (h : Ready x s) {t : ι}
    (hst : s t = start x prog t) {op : Op} (hop : op ∈ prog t) {k : Nat} {l : Lock} {m : Mode}
    (hheld : heldAfter ((op.locks x).take k) = [])
    (hat : (op.locks x)[k]? = some (.acquire l m)) :
    ∃ sched rest, run (step (Op.locks x)) s sched = Function.update s t ⟨op :: rest, k, false⟩ ∧
      Ready x (Function.update s t ⟨op :: rest, k, false⟩) := by
  have hk : k < (op.locks x).length := (List.getElem?_eq_some_iff.mp hat).1
  have hne : op.locks x ≠ [] := List.ne_nil_of_length_pos (Nat.zero_lt_of_lt hk)
  have hmem : op ∈ locking x (prog t) := List.mem_filter.mpr ⟨hop, by simpa using hne⟩
  obtain ⟨pre, rest, hsplit⟩ := List.append_of_mem hmem
  have hpre : ∀ op' ∈ pre, op'.locks x ≠ [] := by
    intro op' hop'
    have hin : op' ∈ locking x (prog t) := hsplit ▸ List.mem_append_left _ hop'
    simpa using (List.mem_filter.mp hin).2
  rw [start, hsplit] at hst
  obtain ⟨sched, hrun, hrest⟩ := h.atRest.exists_run_at noReentry hst hpre hk hheld
  refine ⟨sched, rest, hrun, hrest, fun u hu => ?_⟩
  by_cases hut : u = t
  · subst hut
    rw [Function.update_self]
    exact ⟨l, m, hat⟩
  · rw [Function.update_of_ne hut] at hu ⊢
    exact h.inFront u hu

/-- Two queries at rest take one lock each. -/
theorem run_queries {s : ι → Thread Op} (hrest : AtRest (Op.locks x) s) {t₁ t₂ : ι}
    (hne : t₁ ≠ t₂) {op₁ op₂ : Op} {r₁ r₂ : List Op}
    (e₁ : s t₁ = ⟨op₁ :: r₁, 0, false⟩) (n₁ : op₁.Nests .ads)
    (e₂ : s t₂ = ⟨op₂ :: r₂, 0, false⟩) (n₂ : op₂.Nests .identities) :
    run (step (Op.locks x)) s [t₁, t₂] =
      Function.update (Function.update s t₁ ⟨op₁ :: r₁, 1, false⟩) t₂ ⟨op₂ :: r₂, 1, false⟩ := by
  have l₁ : op₁.locks x = readingBoth .ads .identities := locks_of_nests n₁
  have l₂ : op₂.locks x = readingBoth .identities .ads := locks_of_nests n₂
  have s₁ : step (Op.locks x) s t₁ = Function.update s t₁ ⟨op₁ :: r₁, 1, false⟩ := by
    rw [step_alone noReentry (fun u _ => hrest u) (hrest t₁).2, e₁]
    simp [Thread.advance, l₁, readingBoth]
  rw [run_cons, run_cons, run_nil, s₁, step_read (l := .identities)]
  · simp [Function.update_of_ne hne.symm, e₂, Thread.advance, l₂, readingBoth]
  · simp [Function.update_of_ne hne.symm, e₂, Thread.cur, l₂, readingBoth]
  · rintro ⟨u, hu⟩
    by_cases h : u = t₁
    · simp [h, Thread.held, l₁, readingBoth, heldAfter] at hu
    · simp [Function.update_of_ne h, (hrest u).1] at hu
  · rintro ⟨u, hu, -⟩
    by_cases h : u = t₁
    · simp [h] at hu
    · simp [Function.update_of_ne h, (hrest u).2] at hu

/-- Two writers that queue behind locks that are held jam the registry. -/
theorem deadlocked_of_writers {s : ι → Thread Op} {t₃ t₄ : ι}
    (hheld : ∀ l, Held (Op.locks x) s l)
    (hat : ∀ u, (s u).ops ≠ [] → ∃ l m, (s u).cur (Op.locks x) = some (.acquire l m))
    (c₃ : (s t₃).cur (Op.locks x) = some (.acquire .ads .write))
    (c₄ : (s t₄).cur (Op.locks x) = some (.acquire .identities .write)) :
    Deadlocked (Op.locks x) (run (step (Op.locks x)) s [t₃, t₄]) := by
  have hheld' : ∀ l, Held (Op.locks x) (queue s t₃) l := by simpa [Held] using hheld
  have s₄ : step (Op.locks x) (queue s t₃) t₄ = queue (queue s t₃) t₄ :=
    step_queue (by simpa using c₄) (hheld' .identities)
  rw [run_cons, run_cons, run_nil, step_queue c₃ (hheld .ads), s₄]
  obtain ⟨op, hop, -⟩ := mem_ops_of_cur c₃
  refine deadlocked_of_jammed (t := t₃) ?_ (fun l => ?_) ?_ ?_
  · simpa [Held] using hheld
  · cases l with
    | ads => exact ⟨t₃, by simp [queue_apply], by simpa using c₃⟩
    | identities => exact ⟨t₄, by simp [queue_apply], by simpa using c₄⟩
  · simpa using List.ne_nil_of_mem hop
  · simpa using hat

/-- The four threads, each in front of the lock it takes first (a writer: of the
lock it is there for), jam the registry. -/
theorem deadlocked_of_ready {s : ι → Thread Op} (h : Ready x s)
    {t₁ t₂ t₃ t₄ : ι} (hnd : [t₁, t₂, t₃, t₄].Nodup) {op₁ op₂ : Op} {r₁ r₂ : List Op}
    (e₁ : s t₁ = ⟨op₁ :: r₁, 0, false⟩) (n₁ : op₁.Nests .ads)
    (e₂ : s t₂ = ⟨op₂ :: r₂, 0, false⟩) (n₂ : op₂.Nests .identities)
    (c₃ : (s t₃).cur (Op.locks x) = some (.acquire .ads .write))
    (c₄ : (s t₄).cur (Op.locks x) = some (.acquire .identities .write)) :
    Deadlocked (Op.locks x) (run (step (Op.locks x)) s ([t₁, t₂] ++ [t₃, t₄])) := by
  obtain ⟨⟨h₁₂, h₁₃, h₁₄⟩, ⟨h₂₃, h₂₄⟩, -⟩ :
      (t₁ ≠ t₂ ∧ t₁ ≠ t₃ ∧ t₁ ≠ t₄) ∧ (t₂ ≠ t₃ ∧ t₂ ≠ t₄) ∧ t₃ ≠ t₄ := by simpa using hnd
  have l₁ : op₁.locks x = readingBoth .ads .identities := locks_of_nests n₁
  have l₂ : op₂.locks x = readingBoth .identities .ads := locks_of_nests n₂
  rw [run_append, run_queries h.atRest h₁₂ e₁ n₁ e₂ n₂]
  generalize hs' : Function.update (Function.update s t₁ ⟨op₁ :: r₁, 1, false⟩) t₂
    ⟨op₂ :: r₂, 1, false⟩ = s'
  have a₁ : s' t₁ = ⟨op₁ :: r₁, 1, false⟩ := by simp [← hs', Function.update_of_ne h₁₂]
  have a₂ : s' t₂ = ⟨op₂ :: r₂, 1, false⟩ := by simp [← hs']
  have a : ∀ u, u ≠ t₁ → u ≠ t₂ → s' u = s u := by
    intro u hu₁ hu₂
    rw [← hs', Function.update_of_ne hu₂, Function.update_of_ne hu₁]
  have a₃ := a t₃ h₁₃.symm h₂₃.symm
  have a₄ := a t₄ h₁₄.symm h₂₄.symm
  refine deadlocked_of_writers (fun l => ?_) (fun u hu => ?_) (by rw [a₃, c₃]) (by rw [a₄, c₄])
  · cases l with
    | ads => exact ⟨t₁, (.ads, .read), by simp [a₁, Thread.held, l₁, readingBoth, heldAfter], rfl⟩
    | identities =>
      exact ⟨t₂, (.identities, .read), by simp [a₂, Thread.held, l₂, readingBoth, heldAfter], rfl⟩
  · by_cases hu₁ : u = t₁
    · exact ⟨.identities, .read, by simp [hu₁, a₁, Thread.cur, l₁, readingBoth]⟩
    by_cases hu₂ : u = t₂
    · exact ⟨.ads, .read, by simp [hu₂, a₂, Thread.cur, l₂, readingBoth]⟩
    rw [a u hu₁ hu₂] at hu ⊢
    exact h.inFront u hu

/-- The four threads can get in front of their locks. -/
theorem exists_deadlocked (h : FourWay x prog) :
    ∃ sched, Deadlocked (Op.locks x) (run (step (Op.locks x)) (start x prog) sched) := by
  obtain ⟨t₁, t₂, t₃, t₄, hnd, ⟨op₁, ho₁, n₁⟩, ⟨op₂, ho₂, n₂⟩, ⟨op₃, ho₃, w₃⟩, op₄, ho₄, w₄⟩ := h
  obtain ⟨⟨h₁₂, h₁₃, h₁₄⟩, ⟨h₂₃, h₂₄⟩, h₃₄⟩ :
      (t₁ ≠ t₂ ∧ t₁ ≠ t₃ ∧ t₁ ≠ t₄) ∧ (t₂ ≠ t₃ ∧ t₂ ≠ t₄) ∧ t₃ ≠ t₄ := by simpa using hnd
  have l₁ : (op₁.locks x)[0]? = some (.acquire .ads .read) := by
    simp [locks_of_nests n₁, readingBoth]
  have l₂ : (op₂.locks x)[0]? = some (.acquire .identities .read) := by
    simp [locks_of_nests n₂, readingBoth]
  obtain ⟨k₃, he₃, l₃⟩ := exists_write w₃
  obtain ⟨k₄, he₄, l₄⟩ := exists_write w₄
  -- one after the other, and each of them is left alone afterwards
  obtain ⟨d₁, r₁, hd₁, a₁⟩ := ready_start.exists_run rfl ho₁ rfl l₁
  obtain ⟨d₂, r₂, hd₂, a₂⟩ := a₁.exists_run (Function.update_of_ne h₁₂.symm ..) ho₂ rfl l₂
  obtain ⟨d₃, r₃, hd₃, a₃⟩ := a₂.exists_run (t := t₃)
    (by rw [Function.update_of_ne h₂₃.symm, Function.update_of_ne h₁₃.symm]) ho₃ he₃ l₃
  obtain ⟨d₄, r₄, hd₄, a₄⟩ := a₃.exists_run (t := t₄)
    (by rw [Function.update_of_ne h₃₄.symm, Function.update_of_ne h₂₄.symm,
      Function.update_of_ne h₁₄.symm]) ho₄ he₄ l₄
  refine ⟨d₁ ++ (d₂ ++ (d₃ ++ (d₄ ++ ([t₁, t₂] ++ [t₃, t₄])))), ?_⟩
  rw [run_append, hd₁, run_append, hd₂, run_append, hd₃, run_append, hd₄]
  apply deadlocked_of_ready a₄ hnd _ n₁ _ n₂
  · rw [Function.update_of_ne h₃₄, Function.update_self]
    exact l₃
  · rw [Function.update_self]
    exact l₄
  · exact r₁
  · exact r₂
  · rw [Function.update_of_ne h₁₄, Function.update_of_ne h₁₃, Function.update_of_ne h₁₂,
      Function.update_self]
  · rw [Function.update_of_ne h₂₄, Function.update_of_ne h₂₃, Function.update_self]

/-- No schedule jams the registry, unless a readiness query, a `closest_peers` and
writers of both maps run on four threads. -/
theorem deadlock_free_iff (x : Externals W) (prog : ι → List Op) :
    (∀ sched, ¬ Deadlocked (Op.locks x) (run (step (Op.locks x)) (start x prog) sched)) ↔
      ¬ FourWay x prog := by
  constructor
  · intro hfree hfour
    obtain ⟨sched, hd⟩ := exists_deadlocked hfour
    exact hfree sched hd
  · intro hfour sched hd
    exact hfour (fourWay_of_deadlocked sched hd)

end

/-- A readiness query, a proximity query, the pruner, and a caller that records an
identity. -/
def jammedProg : Fin 4 → List Op
  | 0 => [.readyPeersForService .inference]
  | 1 => [.closestPeers (peerOf 1) 1]
  | 2 => [.pruneExpired 0]
  | 3 => [.recordIdentity ⟨peerOf 1, (keyOf 1).verifyingKey, [], 0, 0, .ready⟩]

/-- The queries take a lock each, the writers queue, and nobody gets on. -/
theorem four_threads_jam :
    Deadlocked (Op.locks Externals.bare)
      (run (step (Op.locks Externals.bare)) (start Externals.bare jammedProg) [0, 1, 2, 3]) := by
  decide +kernel

end Parseh.Core.RegistryLocks
