import Mathlib.Data.Fintype.EquivFin
import Mathlib.Data.List.Perm.Subperm
import Mathlib.Data.List.Nodup
import Mathlib.Logic.Function.Iterate
import Mathlib.Logic.Relation

/-!
# Kahn's algorithm

The nodes are the numbers below `n`, and `deps i` are the nodes that `i` depends
on, with repetitions.  Ready nodes are processed first in, first out; processing
a node takes one from the indegree of each node that depends on it, and a node
whose indegree drops to zero is ready.

* `pending_kahn`: `n` rounds empty the queue;
* `nodup_kahn` and `lt_of_mem_kahn`: no node is processed twice, and only nodes are;
* `deps_before`: a node comes after everything it depends on;
* `exists_dep_left`: a node that is never ready depends on another such node;
* `roundsChecked_eq`: no indegree is taken below zero;
* `length_kahn_iff`: every node is processed exactly when there is no cycle.
-/

namespace Parseh.Lib.Kahn

structure Queue where
  indegree : Nat → Nat
  /-- The nodes processed so far. -/
  order : List Nat
  /-- The ready nodes behind the cursor. -/
  pending : List Nat

variable (n : Nat) (deps : Nat → List Nat)

/-- The nodes that depend on `a`, once for each time they name it. -/
def adj (a : Nat) : List Nat :=
  (List.range n).flatMap fun i => ((deps i).filter fun d => d = a).map fun _ => i

def start : Queue where
  indegree i := (deps i).length
  order := []
  pending := (List.range n).filter fun i => (deps i).length = 0

/-- One edge into `m` is gone. -/
def relax (q : Queue) (m : Nat) : Queue where
  indegree := Function.update q.indegree m (q.indegree m - 1)
  order := q.order
  pending := if q.indegree m - 1 = 0 then q.pending ++ [m] else q.pending

/-- Process the node at the cursor. -/
def process (q : Queue) : Queue :=
  match q.pending with
  | [] => q
  | a :: rest => (adj n deps a).foldl relax { q with order := q.order ++ [a], pending := rest }

/-- Every node is processed at most once, so that `n` rounds do. -/
def kahn : Queue := (process n deps)^[n] (start n deps)

/-! ## Counting edges -/

variable {n deps}

theorem count_adj {m : Nat} (hm : m < n) (a : Nat) : (adj n deps a).count m = (deps m).count a := by
  induction n with
  | zero => omega
  | succ n ih =>
    have hlast : (((deps n).filter fun d => d = a).map fun _ => n).count m =
        if m = n then (deps n).count a else 0 := by
      rw [List.map_const', List.count_replicate, List.count_eq_countP, List.countP_eq_length_filter]
      by_cases h : m = n
      · simp [h, beq_eq_decide]
      · simp [h, Ne.symm h]
    unfold adj at ih ⊢
    rw [List.range_succ, List.flatMap_append, List.count_append, List.flatMap_singleton, hlast]
    by_cases h : m = n
    · subst h
      rw [if_pos rfl, List.count_eq_zero.mpr, Nat.zero_add]
      simp only [List.mem_flatMap, List.mem_range, List.mem_map, not_exists, not_and]
      rintro i hi d - rfl
      omega
    · rw [if_neg h, ih (by omega), Nat.add_zero]

/-- The edges into `m` from processed nodes are the dependencies that are
processed. -/
theorem count_flatMap_adj {m : Nat} (hm : m < n) {order : List Nat} (hnd : order.Nodup) :
    (order.flatMap (adj n deps)).count m = (deps m).countP (· ∈ order) := by
  induction order with
  | nil => simp
  | cons a order ih =>
    obtain ⟨ha, hnd⟩ := List.nodup_cons.mp hnd
    rw [List.flatMap_cons, List.count_append, count_adj hm, ih hnd]
    generalize deps m = ds
    induction ds with
    | nil => simp
    | cons d ds ihd =>
      by_cases hd : d = a
      · subst hd
        simp [ha] at ihd ⊢
        omega
      · simp [hd, List.countP_cons] at ihd ⊢
        omega

/-! ## The invariant -/

variable (n deps) in
/-- The queue after the edges into the nodes `used` are gone. -/
structure Inv (used : List Nat) (q : Queue) : Prop where
  nodup : (q.order ++ q.pending).Nodup
  lt : ∀ i ∈ q.order ++ q.pending, i < n
  count : ∀ m < n, q.indegree m + used.count m = (deps m).length
  ready : ∀ m < n, m ∈ q.order ++ q.pending ↔ q.indegree m = 0
  before : ∀ pre m, pre ++ [m] <+: q.order ++ q.pending → ∀ d ∈ deps m, d ∈ pre

theorem inv_start : Inv n deps [] (start n deps) where
  nodup := by simpa [start] using List.nodup_range.filter _
  lt i hi := by
    simp only [start, List.nil_append, List.mem_filter, List.mem_range] at hi
    exact hi.1
  count m _ := by simp [start]
  ready m hm := by simp [start, hm]
  before pre m h d hd := by
    have hm : m ∈ (start n deps).order ++ (start n deps).pending := h.subset (by simp)
    simp only [start, List.nil_append, List.mem_filter, decide_eq_true_eq,
      List.length_eq_zero_iff] at hm
    simp [hm.2] at hd

/-- What one edge less does to the ready nodes. -/
theorem ready_relax (q : Queue) (m : Nat) :
    (relax q m).order ++ (relax q m).pending =
      if q.indegree m - 1 = 0 then (q.order ++ q.pending) ++ [m] else q.order ++ q.pending := by
  unfold relax
  split <;> simp

@[simp] theorem indegree_relax_self (q : Queue) (m : Nat) :
    (relax q m).indegree m = q.indegree m - 1 := Function.update_self ..

theorem indegree_relax_of_ne {q : Queue} {m k : Nat} (h : k ≠ m) :
    (relax q m).indegree k = q.indegree k := Function.update_of_ne h ..

section

variable {used : List Nat} {q : Queue} {m : Nat}

theorem Inv.count_relax (h : Inv n deps used q) (hpos : 0 < q.indegree m) :
    ∀ k < n, (Kahn.relax q m).indegree k + (used ++ [m]).count k = (deps k).length := by
  intro k hk
  have hcount := h.count k hk
  by_cases hkm : k = m
  · subst hkm
    rw [indegree_relax_self, List.count_append, List.count_singleton_self]
    omega
  · rw [indegree_relax_of_ne hkm]
    simpa [Ne.symm hkm] using hcount

/-- The last edge into `m`: it gets ready, and all it depends on is ready before. -/
theorem Inv.relax_last (h : Inv n deps used q) (hm : m < n) (hone : q.indegree m = 1)
    (hall : ∀ d ∈ deps m, d ∈ q.order ++ q.pending) :
    Inv n deps (used ++ [m]) (Kahn.relax q m) := by
  have hnew : m ∉ q.order ++ q.pending := by
    rw [h.ready m hm]
    omega
  have hready := ready_relax q m
  rw [if_pos (by omega)] at hready
  refine ⟨?_, ?_, h.count_relax (by omega), fun k hk => ?_, fun pre k hpre => ?_⟩
  · rw [hready]
    simpa using h.nodup.concat hnew
  · rw [hready]
    simpa [or_imp, forall_and, hm] using h.lt
  · by_cases hkm : k = m
    · subst hkm
      simp [hready, hone]
    · rw [hready, indegree_relax_of_ne hkm, ← h.ready k hk]
      simp [hkm]
  · rw [hready] at hpre
    rcases List.prefix_concat_iff.mp hpre with heq | hpre
    · obtain ⟨rfl, rfl⟩ := List.append_singleton_inj.mp heq
      exact hall
    · exact h.before pre k hpre

/-- An edge into `m` that is not the last: the ready nodes stay. -/
theorem Inv.relax_more (h : Inv n deps used q) (hm : m < n) (hmore : 1 < q.indegree m) :
    Inv n deps (used ++ [m]) (Kahn.relax q m) := by
  have hready := ready_relax q m
  rw [if_neg (by omega)] at hready
  refine ⟨?_, ?_, h.count_relax (by omega), fun k hk => ?_, ?_⟩
  · rw [hready]
    exact h.nodup
  · rw [hready]
    exact h.lt
  · rw [hready, h.ready k hk]
    by_cases hkm : k = m
    · subst hkm
      rw [indegree_relax_self]
      omega
    · rw [indegree_relax_of_ne hkm]
  · rw [hready]
    exact h.before

/-- One edge less.  The edges used, with this one, come from processed nodes. -/
theorem Inv.relax (h : Inv n deps used q) (hm : m < n)
    (hused : used.count m + 1 ≤ (deps m).countP (· ∈ q.order)) :
    Inv n deps (used ++ [m]) (Kahn.relax q m) := by
  have hle : (deps m).countP (· ∈ q.order) ≤ (deps m).length := List.countP_le_length
  have hcount := h.count m hm
  by_cases hmore : 1 < q.indegree m
  · exact h.relax_more hm hmore
  · refine h.relax_last hm (by omega) fun d hd => ?_
    -- the used edges are all edges into `m`
    have heq : (deps m).countP (· ∈ q.order) = (deps m).length := by omega
    have hd := List.countP_eq_length.mp heq d hd
    exact List.mem_append_left _ (by simpa using hd)

end

/-- The edges out of a processed node go one by one. -/
theorem Inv.foldl_relax {used ms : List Nat} {q : Queue} (h : Inv n deps used q)
    (hlt : ∀ m ∈ ms, m < n)
    (hused : ∀ m < n, (used ++ ms).count m ≤ (deps m).countP (· ∈ q.order)) :
    Inv n deps (used ++ ms) (ms.foldl Kahn.relax q) := by
  induction ms generalizing used q with
  | nil => simpa using h
  | cons m ms ih =>
    have hm : m < n := hlt m (by simp)
    have hle := hused m hm
    rw [List.count_append, List.count_cons_self] at hle
    have hnext := ih (h.relax hm (by omega)) (fun k hk => hlt k (by simp [hk]))
      (fun k hk => by rw [List.append_assoc]; exact hused k hk)
    rw [List.append_assoc] at hnext
    exact hnext

theorem lt_of_mem_adj {a m : Nat} (h : m ∈ adj n deps a) : m < n := by
  simp only [adj, List.mem_flatMap, List.mem_range, List.mem_map] at h
  obtain ⟨i, hi, -, -, rfl⟩ := h
  exact hi

theorem order_foldl_relax (ms : List Nat) (q : Queue) : (ms.foldl relax q).order = q.order := by
  induction ms generalizing q with
  | nil => rfl
  | cons m ms ih => exact ih (relax q m)

/-- Between rounds the edges of the processed nodes are used. -/
def Settled (n : Nat) (deps : Nat → List Nat) (q : Queue) : Prop :=
  Inv n deps (q.order.flatMap (adj n deps)) q

theorem process_cons {q : Queue} {a : Nat} {rest : List Nat} (h : q.pending = a :: rest) :
    process n deps q =
      (adj n deps a).foldl relax { q with order := q.order ++ [a], pending := rest } := by
  simp only [process, h]

/-- The cursor moves on, the ready nodes stay. -/
theorem Settled.moved {q : Queue} (h : Settled n deps q) {a : Nat} {rest : List Nat}
    (hp : q.pending = a :: rest) :
    Inv n deps (q.order.flatMap (adj n deps))
      { q with order := q.order ++ [a], pending := rest } := by
  have hready : (q.order ++ [a]) ++ rest = q.order ++ q.pending := by simp [hp]
  refine ⟨?_, ?_, h.count, ?_, ?_⟩
  · simpa only [hready] using h.nodup
  · simpa only [hready] using h.lt
  · simpa only [hready] using h.ready
  · simpa only [hready] using h.before

/-- The edges out of the node at the cursor are used with it. -/
theorem Settled.used_le {q : Queue} (h : Settled n deps q) {a : Nat} {rest : List Nat}
    (hp : q.pending = a :: rest) {m : Nat} (hm : m < n) :
    (q.order.flatMap (adj n deps) ++ adj n deps a).count m =
      (deps m).countP (· ∈ q.order ++ [a]) := by
  rw [← count_flatMap_adj hm (h.moved hp).nodup.of_append_left, List.flatMap_append,
    List.flatMap_singleton]

theorem Settled.process {q : Queue} (h : Settled n deps q) :
    Settled n deps (process n deps q) := by
  cases hp : q.pending with
  | nil => simpa [Kahn.process, hp] using h
  | cons a rest =>
    unfold Settled
    rw [process_cons hp, order_foldl_relax, List.flatMap_append, List.flatMap_singleton]
    exact (h.moved hp).foldl_relax (fun m hm => lt_of_mem_adj hm)
      fun m hm => Nat.le_of_eq (h.used_le hp hm)

/-- A round processes a node, as long as one is ready. -/
theorem length_order_process {q : Queue} (h : q.pending ≠ []) :
    (process n deps q).order.length = q.order.length + 1 := by
  obtain ⟨a, rest, hp⟩ := List.exists_cons_of_ne_nil h
  simp [process_cons hp, order_foldl_relax]

theorem process_of_pending {q : Queue} (h : q.pending = []) : process n deps q = q := by
  simp [process, h]

theorem settled_rounds (k : Nat) : Settled n deps ((process n deps)^[k] (start n deps)) := by
  induction k with
  | zero => exact inv_start
  | succ k ih =>
    rw [Function.iterate_succ_apply']
    exact ih.process

/-- As long as the queue is not empty, every round adds a node. -/
theorem length_order_rounds (k : Nat)
    (h : ((process n deps)^[k] (start n deps)).pending ≠ []) :
    ((process n deps)^[k] (start n deps)).order.length = k := by
  induction k with
  | zero => rfl
  | succ k ih =>
    rw [Function.iterate_succ_apply'] at h ⊢
    have hk : ((process n deps)^[k] (start n deps)).pending ≠ [] := by
      intro hnil
      rw [process_of_pending hnil] at h
      exact h hnil
    rw [length_order_process hk, ih hk]

theorem Settled.length_le {q : Queue} (h : Settled n deps q) :
    (q.order ++ q.pending).length ≤ n := by
  have hsub : q.order ++ q.pending ⊆ List.range n := fun i hi => List.mem_range.mpr (h.lt i hi)
  simpa using (h.nodup.subperm hsub).length_le

/-! ## What the algorithm returns -/

/-- The queue is empty in the end. -/
theorem pending_kahn : (kahn n deps).pending = [] := by
  by_contra hne
  have hlen := length_order_rounds n hne
  have hle := (settled_rounds n : Settled n deps _).length_le
  have hpos := List.length_pos_iff.mpr hne
  rw [List.length_append, hlen] at hle
  simp only [kahn] at hpos
  omega

theorem nodup_kahn : (kahn n deps).order.Nodup :=
  (settled_rounds n).nodup.of_append_left

theorem lt_of_mem_kahn {i : Nat} (h : i ∈ (kahn n deps).order) : i < n :=
  (settled_rounds n).lt i (List.mem_append_left _ h)

/-- A node that is left over depends on one that is left over. -/
theorem exists_dep_left {i : Nat} (hi : i < n) (h : i ∉ (kahn n deps).order) :
    ∃ d ∈ deps i, d ∉ (kahn n deps).order := by
  have hinv : Settled n deps (kahn n deps) := settled_rounds n
  have hready := hinv.ready i hi
  rw [pending_kahn, List.append_nil] at hready
  have hpos : (kahn n deps).indegree i ≠ 0 := fun hz => h (hready.mpr hz)
  have hcount := hinv.count i hi
  rw [count_flatMap_adj hi nodup_kahn] at hcount
  by_contra hall
  push Not at hall
  have hall : (deps i).countP (· ∈ (kahn n deps).order) = (deps i).length :=
    List.countP_eq_length.mpr fun d hd => by simpa using hall d hd
  omega

/-- Where every node is in the order, none is missing from its length. -/
theorem length_kahn (h : ∀ i < n, i ∈ (kahn n deps).order) : (kahn n deps).order.length = n := by
  have hinv : Settled n deps (kahn n deps) := settled_rounds n
  have hle := hinv.length_le
  rw [pending_kahn, List.append_nil] at hle
  have hsub : List.range n ⊆ (kahn n deps).order := fun i hi => h i (List.mem_range.mp hi)
  have hge := (List.nodup_range.subperm hsub).length_le
  rw [List.length_range] at hge
  omega

/-- Everything a node depends on comes before it. -/
theorem deps_before {pre post : List Nat} {m : Nat}
    (h : (kahn n deps).order = pre ++ m :: post) : ∀ d ∈ deps m, d ∈ pre := by
  refine (settled_rounds (n := n) n).before pre m ?_
  refine List.IsPrefix.trans ?_ (List.prefix_append ..)
  exact ⟨post, by simp [← h, kahn]⟩

/-! ## The subtractions -/

/-- One edge into `m` is gone; an indegree of zero cannot be lowered. -/
def relaxChecked (q : Queue) (m : Nat) : Option Queue :=
  if q.indegree m = 0 then none else some (relax q m)

variable (n deps) in
/-- A round in which every subtraction is checked. -/
def processChecked (q : Queue) : Option Queue :=
  match q.pending with
  | [] => some q
  | a :: rest =>
    (adj n deps a).foldlM relaxChecked { q with order := q.order ++ [a], pending := rest }

variable (n deps) in
def roundsChecked : Nat → Option Queue
  | 0 => some (start n deps)
  | k + 1 => (roundsChecked k).bind (processChecked n deps)

theorem Inv.foldlM_relaxChecked {used ms : List Nat} {q : Queue} (h : Inv n deps used q)
    (hlt : ∀ m ∈ ms, m < n)
    (hused : ∀ m < n, (used ++ ms).count m ≤ (deps m).countP (· ∈ q.order)) :
    ms.foldlM relaxChecked q = some (ms.foldl Kahn.relax q) := by
  induction ms generalizing used q with
  | nil => rfl
  | cons m ms ih =>
    have hm : m < n := hlt m (by simp)
    have hle := hused m hm
    rw [List.count_append, List.count_cons_self] at hle
    -- an edge that is still to be used is counted in the indegree
    have hcount := h.count m hm
    have hall : (deps m).countP (· ∈ q.order) ≤ (deps m).length := List.countP_le_length
    have hone : relaxChecked q m = some (Kahn.relax q m) := if_neg (by omega)
    rw [List.foldlM_cons, hone, List.foldl_cons]
    refine ih (h.relax hm (by omega)) (fun k hk => hlt k (by simp [hk])) fun k hk => ?_
    rw [List.append_assoc]
    exact hused k hk

theorem Settled.processChecked {q : Queue} (h : Settled n deps q) :
    Kahn.processChecked n deps q = some (Kahn.process n deps q) := by
  cases hp : q.pending with
  | nil => simp [Kahn.processChecked, Kahn.process, hp]
  | cons a rest =>
    simp only [Kahn.processChecked, hp, process_cons hp]
    exact (h.moved hp).foldlM_relaxChecked (fun m hm => lt_of_mem_adj hm)
      fun m hm => Nat.le_of_eq (h.used_le hp hm)

/-- No subtraction of any round fails. -/
theorem roundsChecked_eq (k : Nat) :
    roundsChecked n deps k = some ((process n deps)^[k] (start n deps)) := by
  induction k with
  | zero => rfl
  | succ k ih =>
    rw [roundsChecked, ih, Option.bind_some, (settled_rounds k).processChecked,
      Function.iterate_succ_apply']

/-! ## Cycles -/

variable (deps) in
/-- The node `a` depends on `d`, at once or through other nodes. -/
def Needs : Nat → Nat → Prop := Relation.TransGen fun a d => d ∈ deps a

theorem needs_before {a d : Nat} (h : Needs deps a d) {pre post : List Nat}
    (horder : (kahn n deps).order = pre ++ a :: post) : d ∈ pre := by
  induction h with
  | single hd => exact deps_before horder _ hd
  | tail _ hd ih =>
    obtain ⟨pre₁, pre₂, rfl⟩ := List.append_of_mem ih
    rw [List.append_assoc, List.cons_append] at horder
    exact List.mem_append_left _ (deps_before horder _ hd)

/-- A node in the order is on no cycle. -/
theorem not_needs_self {i : Nat} (hi : i ∈ (kahn n deps).order) : ¬ Needs deps i i := by
  intro hcycle
  obtain ⟨pre, post, horder⟩ := List.append_of_mem hi
  have hnd : (kahn n deps).order.Nodup := nodup_kahn
  rw [horder, List.nodup_append] at hnd
  exact hnd.2.2 i (needs_before hcycle horder) i (by simp) rfl

/-- Without cycles a node can be reached from what it depends on, and none is left. -/
theorem mem_kahn_of_acyclic (hdeps : ∀ i < n, ∀ d ∈ deps i, d < n)
    (hacyclic : ∀ i < n, ¬ Needs deps i i) {i : Nat} (hi : i < n) :
    i ∈ (kahn n deps).order := by
  let below := fun d a : Fin n => Needs deps a.1 d.1
  have : IsTrans (Fin n) below := ⟨fun _ _ _ h h' => h'.trans h⟩
  have : Std.Irrefl below := ⟨fun a => hacyclic a.1 a.2⟩
  have hwf : WellFounded below := Finite.wellFounded_of_trans_of_irrefl below
  have hall : ∀ a : Fin n, a.1 ∈ (kahn n deps).order := by
    intro a
    induction a using hwf.induction with
    | h a ih =>
      by_contra hleft
      obtain ⟨d, hd, hdleft⟩ := exists_dep_left a.2 hleft
      exact hdleft (ih ⟨d, hdeps a.1 a.2 d hd⟩ (.single hd))
  exact hall ⟨i, hi⟩

/-- **Every node is processed exactly when there is no cycle.** -/
theorem length_kahn_iff (hdeps : ∀ i < n, ∀ d ∈ deps i, d < n) :
    (kahn n deps).order.length = n ↔ ∀ i < n, ¬ Needs deps i i := by
  constructor
  · intro hlen i hi
    have hsub : (kahn n deps).order ⊆ List.range n :=
      fun j hj => List.mem_range.mpr (lt_of_mem_kahn hj)
    have hperm := (nodup_kahn.subperm hsub).perm_of_length_le (by simp [hlen])
    exact not_needs_self (hperm.mem_iff.mpr (List.mem_range.mpr hi))
  · intro hacyclic
    exact length_kahn fun i hi => mem_kahn_of_acyclic hdeps hacyclic hi

end Parseh.Lib.Kahn
