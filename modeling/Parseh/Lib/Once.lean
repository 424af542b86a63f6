import Mathlib.Algebra.BigOperators.Group.Finset.Basic
import Parseh.Lib.Run

/-!
# Accumulating each key once

Items arrive in any order and any number of times; each carries a key and an
amount, and only the first item of a key counts.  Where the amount is a function
of the key, the total depends on the set of items alone (`run_once_congr`); where
it is not, two items of one key already tell two orders apart
(`run_once_swap_ne`).
-/

namespace Parseh.Lib

variable {K M : Type} [DecidableEq K]

/-- Add an item unless its key has been seen. -/
def once [Add M] (a : List K × M) (item : K × M) : List K × M :=
  if item.1 ∈ a.1 then a else (a.1 ++ [item.1], a.2 + item.2)

section Add

variable [Add M] {a : List K × M} {item : K × M}

theorem once_of_mem (h : item.1 ∈ a.1) : once a item = a := if_pos h

theorem once_of_not_mem (h : item.1 ∉ a.1) :
    once a item = (a.1 ++ [item.1], a.2 + item.2) := if_neg h

theorem mem_once_fst {k : K} : k ∈ (once a item).1 ↔ k ∈ a.1 ∨ k = item.1 := by
  by_cases h : item.1 ∈ a.1
  · rw [once_of_mem h]
    constructor
    · exact Or.inl
    · rintro (hk | rfl)
      · exact hk
      · exact h
  · rw [once_of_not_mem h, List.mem_append, List.mem_singleton]

end Add

section Sum

variable [AddCommMonoid M]

/-- Items whose key is new carry the amount of their key. -/
def Consistent (seen : List K) (items : List (K × M)) : Prop :=
  ∀ i ∈ items, ∀ j ∈ items, i.1 ∉ seen → i.1 = j.1 → i.2 = j.2

/-- The total after a run, where the keys fix the amounts. -/
theorem run_once_snd {amount : K → M} {items : List (K × M)} (a : List K × M)
    (h : ∀ item ∈ items, item.1 ∉ a.1 → item.2 = amount item.1) :
    (run once a items).2 =
      a.2 + ∑ k ∈ (items.map Prod.fst).toFinset \ a.1.toFinset, amount k := by
  induction items generalizing a with
  | nil => simp
  | cons item items ih =>
    rw [run_cons, ih]
    · by_cases hmem : item.1 ∈ a.1
      · rw [once_of_mem hmem, List.map_cons, List.toFinset_cons,
          Finset.insert_sdiff_of_mem _ (List.mem_toFinset.mpr hmem)]
      · rw [once_of_not_mem hmem, h item List.mem_cons_self hmem, add_assoc, List.map_cons,
          List.toFinset_cons, Finset.insert_sdiff_of_notMem _ (by simpa using hmem)]
        -- the new key is counted now and excluded from the rest
        have hsplit : insert item.1 ((items.map Prod.fst).toFinset \ a.1.toFinset) =
            insert item.1 ((items.map Prod.fst).toFinset \ (a.1 ++ [item.1]).toFinset) := by
          ext k
          by_cases hk : k = item.1 <;> simp [hk]
        rw [hsplit, Finset.sum_insert (by simp)]
    · intro i hi hnew
      exact h i (List.mem_cons_of_mem _ hi) fun hseen => hnew (mem_once_fst.mpr (Or.inl hseen))

/-- Order and repetition of consistent items do not matter. -/
theorem run_once_congr {items items' : List (K × M)} (a : List K × M)
    (h : Consistent a.1 items) (hset : ∀ item, item ∈ items ↔ item ∈ items') :
    (run once a items).2 = (run once a items').2 := by
  have hkeys : (items.map Prod.fst).toFinset = (items'.map Prod.fst).toFinset := by
    ext k
    simp only [List.mem_toFinset, List.mem_map, hset]
  -- the amount of a key is that of its first item
  let amount : K → M := fun k => ((items.find? fun i => i.1 = k).map Prod.snd).getD 0
  have hamount : ∀ item ∈ items, item.1 ∉ a.1 → item.2 = amount item.1 := by
    intro item hi hnew
    cases hf : items.find? (fun i => i.1 = item.1) with
    | none => exact absurd (List.find?_eq_none.mp hf item hi) (by simp)
    | some j =>
      have hj : j.1 = item.1 := by simpa using List.find?_some hf
      simp only [amount, hf, Option.map_some, Option.getD_some]
      exact h item hi j (List.mem_of_find?_eq_some hf) hnew hj.symm
  rw [run_once_snd a hamount, run_once_snd a fun item hi => hamount item ((hset item).mpr hi),
    hkeys]

/-- A run adds the same whatever the total was before. -/
theorem run_once_shift (seen : List K) (m : M) (items : List (K × M)) :
    (run once (seen, m) items).2 = m + (run once (seen, 0) items).2 := by
  induction items generalizing seen m with
  | nil => exact (add_zero m).symm
  | cons item items ih =>
    rw [run_cons, run_cons]
    by_cases hmem : item.1 ∈ seen
    · rw [once_of_mem (a := (seen, m)) hmem, once_of_mem (a := (seen, (0 : M))) hmem, ih]
    · rw [once_of_not_mem (a := (seen, m)) hmem, once_of_not_mem (a := (seen, (0 : M))) hmem,
        ih, ih (seen ++ [item.1]) (0 + item.2), zero_add, add_assoc]

/-- Two items of a new key in both orders, before the same items, give totals that
differ as their amounts do. -/
theorem run_once_swap_ne [IsCancelAdd M] (a : List K × M) {k : K} (hk : k ∉ a.1) {d d' : M}
    (hne : d ≠ d') (items : List (K × M)) :
    (run once a ((k, d) :: (k, d') :: items)).2 ≠ (run once a ((k, d') :: (k, d) :: items)).2 := by
  have hfirst : ∀ d d' : M, run once a ((k, d) :: (k, d') :: items) =
      run once (a.1 ++ [k], a.2 + d) items := by
    intro d d'
    have hnew : once a (k, d) = (a.1 ++ [k], a.2 + d) := once_of_not_mem hk
    rw [run_cons, run_cons, hnew, once_of_mem (by simp)]
  rw [hfirst, hfirst, run_once_shift _ (a.2 + d), run_once_shift _ (a.2 + d')]
  exact fun h => hne (add_left_cancel (add_right_cancel h))

end Sum

end Parseh.Lib
