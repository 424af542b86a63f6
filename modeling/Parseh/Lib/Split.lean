import Mathlib.Data.List.Basic

/-!
# Cutting a list

A list cut at every separator (`List.splitOn`), at its last one, or at the first place
where a pattern stands.

* `splitOnce_eq_some` and `rsplitOnce_eq_some`: the pieces and what stood between them
  make up the list;
* `head?_splitOn`: the first piece has no separator.
-/

namespace Parseh.Lib

variable {α : Type} [DecidableEq α] {a : α} {pat l x y : List α}

/-- Cut at the first place where `pat` stands. -/
def splitOnce (pat : List α) : List α → Option (List α × List α)
  | [] => if pat = [] then some ([], []) else none
  | b :: l =>
    if pat <+: b :: l then some ([], (b :: l).drop pat.length)
    else (splitOnce pat l).map fun (x, y) => (b :: x, y)

/-- Cut at the last separator. -/
def rsplitOnce (a : α) : List α → Option (List α × List α)
  | [] => none
  | b :: l =>
    match rsplitOnce a l with
    | some (x, y) => some (b :: x, y)
    | none => if b = a then some ([], l) else none

theorem splitOnce_eq_some (h : splitOnce pat l = some (x, y)) : l = x ++ pat ++ y := by
  induction l generalizing x with
  | nil =>
    simp only [splitOnce] at h
    split at h
    · next hpat =>
      obtain ⟨rfl, rfl⟩ := Prod.mk.inj (Option.some.inj h)
      rw [hpat]
      rfl
    · cases h
  | cons b l ih =>
    simp only [splitOnce] at h
    split at h
    · next hpat =>
      obtain ⟨rfl, rfl⟩ := Prod.mk.inj (Option.some.inj h)
      exact (List.prefix_iff_eq_append.mp hpat).symm
    · obtain ⟨⟨x', y'⟩, hsplit, heq⟩ := Option.map_eq_some_iff.mp h
      obtain ⟨rfl, rfl⟩ := Prod.mk.inj heq
      rw [ih hsplit]
      rfl

theorem rsplitOnce_eq_none_iff : rsplitOnce a l = none ↔ a ∉ l := by
  induction l with
  | nil => simp [rsplitOnce]
  | cons b l ih =>
    rw [rsplitOnce, List.mem_cons, not_or, ← ih]
    cases rsplitOnce a l with
    | some p => simp
    | none => simp [eq_comm]

theorem rsplitOnce_append_cons (x : List α) (h : a ∉ y) :
    rsplitOnce a (x ++ a :: y) = some (x, y) := by
  induction x with
  | nil => rw [List.nil_append, rsplitOnce, rsplitOnce_eq_none_iff.mpr h, if_pos rfl]
  | cons b x ih => rw [List.cons_append, rsplitOnce, ih]

theorem rsplitOnce_eq_some (h : rsplitOnce a l = some (x, y)) : l = x ++ a :: y ∧ a ∉ y := by
  induction l generalizing x with
  | nil => cases h
  | cons b l ih =>
    rw [rsplitOnce] at h
    split at h
    · next x' y' hsplit =>
      obtain ⟨rfl, rfl⟩ := Prod.mk.inj (Option.some.inj h)
      obtain ⟨rfl, hy⟩ := ih hsplit
      exact ⟨rfl, hy⟩
    · next hnone =>
      split at h
      · next hb =>
        obtain ⟨rfl, rfl⟩ := Prod.mk.inj (Option.some.inj h)
        rw [hb]
        exact ⟨rfl, rsplitOnce_eq_none_iff.mp hnone⟩
      · cases h

theorem head?_splitOn (a : α) (l : List α) : ∃ x, (l.splitOn a).head? = some x ∧ a ∉ x := by
  by_cases hmem : a ∈ l
  · obtain ⟨x, y, rfl, hx⟩ := List.eq_append_cons_of_mem hmem
    rw [List.splitOn_append_cons_self_of_not_mem hx]
    exact ⟨x, rfl, hx⟩
  · rw [List.splitOn_eq_singleton hmem]
    exact ⟨l, rfl, hmem⟩

end Parseh.Lib
