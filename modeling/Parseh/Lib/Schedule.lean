import Mathlib.Data.List.Induction
import Mathlib.Data.List.Nodup
import Mathlib.Data.List.Perm.Basic
import Mathlib.Logic.Function.Basic

/-!
# Schedules of dependent evaluations

Nodes with keys are evaluated one after the other, each from the values of the
nodes before it.  A node reads the values of some keys, and a schedule is sorted
when everything a node reads comes before it.

* `runs_iff_solves`: a sorted schedule ends with the values `out` if and only if
  `out` solves the equations of all nodes at once;
* `runs_perm`: so two sorted schedules of the same nodes end alike.
-/

namespace Parseh.Lib.Schedule

variable {α κ β ε : Type} [DecidableEq κ]

/-- One node: its value under its key. -/
def step (key : α → κ) (eval : (κ → Option β) → α → Except ε β) (out : κ → Option β) (a : α) :
    Except ε (κ → Option β) :=
  match eval out a with
  | .error e => .error e
  | .ok v => .ok (Function.update out (key a) (some v))

/-- The schedule runs to its end. -/
def Runs (key : α → κ) (eval : (κ → Option β) → α → Except ε β) (l : List α)
    (out : κ → Option β) : Prop :=
  l.foldlM (step key eval) (fun _ => none) = .ok out

/-- Every node has the value it evaluates to, and there are no other values. -/
structure Solves (key : α → κ) (eval : (κ → Option β) → α → Except ε β) (l : List α)
    (out : κ → Option β) : Prop where
  value : ∀ a ∈ l, ∃ v, eval out a = .ok v ∧ out (key a) = some v
  none : ∀ k ∉ l.map key, out k = none

/-- Everything a node reads comes before it. -/
def Sorted (key : α → κ) (reads : α → κ → Prop) (l : List α) : Prop :=
  ∀ pre a post, l = pre ++ a :: post → ∀ k, reads a k → k ∈ pre.map key

section

variable {key : α → κ} {eval : (κ → Option β) → α → Except ε β} {reads : α → κ → Prop}
  {l : List α} {out : κ → Option β} {a : α}

omit [DecidableEq κ] in
theorem Sorted.dropLast (h : Sorted key reads (l ++ [a])) : Sorted key reads l := by
  intro pre b post hl
  refine h pre b (post ++ [a]) ?_
  rw [hl, List.append_assoc, List.cons_append]

omit [DecidableEq κ] in
theorem Sorted.mem_of_reads (h : Sorted key reads l) (ha : a ∈ l) {k : κ} (hk : reads a k) :
    k ∈ l.map key := by
  obtain ⟨pre, post, rfl⟩ := List.append_of_mem ha
  have hpre := h pre a post rfl k hk
  simp only [List.map_append, List.mem_append]
  exact Or.inl hpre

theorem step_eq_ok_iff {out' : κ → Option β} :
    step key eval out a = .ok out' ↔
      ∃ v, eval out a = .ok v ∧ out' = Function.update out (key a) (some v) := by
  unfold step
  cases eval out a with
  | error e => simp
  | ok v => simp [eq_comm]

theorem runs_nil : Runs key eval [] out ↔ out = fun _ => none := by
  unfold Runs
  rw [List.foldlM_nil]
  exact ⟨fun h => (Except.ok.inj h).symm, fun h => h ▸ rfl⟩

theorem runs_concat :
    Runs key eval (l ++ [a]) out ↔
      ∃ mid v, Runs key eval l mid ∧ eval mid a = .ok v ∧
        out = Function.update mid (key a) (some v) := by
  unfold Runs
  rw [List.foldlM_append]
  cases hl : l.foldlM (step key eval) (fun _ => none) with
  | error e =>
    constructor
    · intro h
      cases h
    · rintro ⟨mid, v, h, -⟩
      cases h
  | ok mid =>
    have hone : ([a].foldlM (step key eval) mid) = step key eval mid a := by
      simp only [List.foldlM_cons, List.foldlM_nil]
      cases step key eval mid a <;> rfl
    show [a].foldlM (step key eval) mid = .ok out ↔ _
    rw [hone, step_eq_ok_iff]
    constructor
    · rintro ⟨v, hv, rfl⟩
      exact ⟨mid, v, rfl, hv, rfl⟩
    · rintro ⟨mid', v, hmid, hv, rfl⟩
      obtain rfl : mid = mid' := Except.ok.inj hmid
      exact ⟨v, hv, rfl⟩

omit [DecidableEq κ] in
/-- A value that no node of the list reads does not matter to the list. -/
theorem Solves.value_congr {out' : κ → Option β}
    (hcongr : ∀ a out out', (∀ k, reads a k → out k = out' k) → eval out a = eval out' a)
    (h : ∀ a ∈ l, ∃ v, eval out a = .ok v ∧ out (key a) = some v) (hsorted : Sorted key reads l)
    (hsame : ∀ k ∈ l.map key, out k = out' k) :
    ∀ a ∈ l, ∃ v, eval out' a = .ok v ∧ out' (key a) = some v := by
  intro a ha
  obtain ⟨v, hv, hout⟩ := h a ha
  refine ⟨v, ?_, ?_⟩
  · rw [← hv]
    exact hcongr a out' out fun k hk => (hsame k (hsorted.mem_of_reads ha hk)).symm
  · rw [← hsame _ (List.mem_map_of_mem ha)]
    exact hout

/-- The last node of a sorted schedule is solved on top of a solution of the others. -/
theorem solves_concat
    (hcongr : ∀ a out out', (∀ k, reads a k → out k = out' k) → eval out a = eval out' a)
    (hnd : ((l ++ [a]).map key).Nodup) (hsorted : Sorted key reads (l ++ [a])) :
    Solves key eval (l ++ [a]) out ↔
      ∃ mid v, Solves key eval l mid ∧ eval mid a = .ok v ∧
        out = Function.update mid (key a) (some v) := by
  rw [List.map_append, List.map_singleton] at hnd
  have hfresh : key a ∉ l.map key := fun h =>
    (List.nodup_append.mp hnd).2.2 _ h _ (List.mem_singleton_self _) rfl
  -- the last node writes none of the values that the others write or that it reads
  have hsame : ∀ (out : κ → Option β) v,
      ∀ k ∈ l.map key, out k = Function.update out (key a) v k := by
    intro out v k hk
    have hne : k ≠ key a := fun heq => hfresh (heq ▸ hk)
    rw [Function.update_of_ne hne]
  have hlast : ∀ (out : κ → Option β) v, eval (Function.update out (key a) v) a = eval out a :=
    fun out v => hcongr a _ _ fun k hk => (hsame out v k (hsorted l a [] (by simp) k hk)).symm
  constructor
  · intro hs
    obtain ⟨v, hv, hout⟩ := hs.value a (by simp)
    refine ⟨Function.update out (key a) none, v, ⟨?_, fun k hk => ?_⟩, ?_, ?_⟩
    · exact Solves.value_congr hcongr (fun b hb => hs.value b (by simp [hb])) hsorted.dropLast
        (hsame out none)
    · by_cases hka : k = key a
      · rw [hka, Function.update_self]
      · rw [Function.update_of_ne hka]
        exact hs.none k (by simpa [hka] using hk)
    · rw [hlast, hv]
    · rw [Function.update_idem, ← hout, Function.update_eq_self]
  · rintro ⟨mid, v, hs, hv, rfl⟩
    refine ⟨fun b hb => ?_, fun k hk => ?_⟩
    · rcases List.mem_append.mp hb with hb | hb
      · exact Solves.value_congr hcongr hs.value hsorted.dropLast (hsame mid (some v)) b hb
      · obtain rfl := List.mem_singleton.mp hb
        exact ⟨v, by rw [hlast, hv], Function.update_self ..⟩
    · simp only [List.map_append, List.map_singleton, List.mem_append, List.mem_singleton,
        not_or] at hk
      rw [Function.update_of_ne hk.2]
      exact hs.none k hk.1

/-- A sorted schedule ends with the solution of the equations of its nodes. -/
theorem runs_iff_solves
    (hcongr : ∀ a out out', (∀ k, reads a k → out k = out' k) → eval out a = eval out' a)
    (hnd : (l.map key).Nodup) (hsorted : Sorted key reads l) :
    Runs key eval l out ↔ Solves key eval l out := by
  induction l using List.reverseRecOn generalizing out with
  | nil =>
    rw [runs_nil]
    exact ⟨fun h => ⟨nofun, fun k _ => h ▸ rfl⟩, fun h => funext fun k => h.none k (by simp)⟩
  | append_singleton l a ih =>
    have hnd' : (l.map key).Nodup := by
      rw [List.map_append] at hnd
      exact hnd.of_append_left
    rw [runs_concat, solves_concat hcongr hnd hsorted]
    simp only [ih hnd' hsorted.dropLast]

omit [DecidableEq κ] in
/-- What solves the equations does so in any order. -/
theorem Solves.perm {l' : List α} (h : Solves key eval l out) (hperm : l.Perm l') :
    Solves key eval l' out :=
  ⟨fun a ha => h.value a (hperm.mem_iff.mpr ha),
    fun k hk => h.none k fun hk' => hk ((hperm.map key).mem_iff.mp hk')⟩

/-- Two sorted schedules of the same nodes end with the same values, or both fail. -/
theorem runs_perm {l' : List α}
    (hcongr : ∀ a out out', (∀ k, reads a k → out k = out' k) → eval out a = eval out' a)
    (hnd : (l.map key).Nodup) (hperm : l.Perm l') (hsorted : Sorted key reads l)
    (hsorted' : Sorted key reads l') : Runs key eval l out ↔ Runs key eval l' out := by
  have hnd' : (l'.map key).Nodup := (hperm.map key).nodup_iff.mp hnd
  rw [runs_iff_solves hcongr hnd hsorted, runs_iff_solves hcongr hnd' hsorted']
  exact ⟨fun h => h.perm hperm, fun h => h.perm hperm.symm⟩

end

end Parseh.Lib.Schedule
