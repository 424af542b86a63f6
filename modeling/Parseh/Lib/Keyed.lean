import Mathlib.Data.List.Destutter
import Mathlib.Data.List.Nodup
import Mathlib.Data.List.Perm.Basic
import Mathlib.Data.List.Sort

/-!
# Keyed tables and keyed sorting

A `Keyed key` is a finite table whose rows carry their own key and in which no
two rows share one.  It serves as a hash map keyed by a field of its values and
as a table with a primary key.  Proved here, over arbitrary rows and keys:

* one membership lemma for each operation (`mem_insertOrIgnore`, `mem_upsert`,
  `mem_retain`) and the lookup lemmas derived from uniqueness of the key
  (`find?_eq_some_iff`, `find?_upsert`);
* `mem_insertAll`: inserting a list under "first one wins" keeps exactly the
  first row of each new key, hence `insertAll_perm`: two orders with the same
  first row for every key give the same table up to order;
* `sortByKey_perm`: sorting by an injective key forgets the input order.
-/

namespace Parseh.Lib

variable {R K : Type} {key : R → K}

/-- Rows with pairwise distinct keys. -/
structure Keyed (key : R → K) where
  rows : List R
  nodup : (rows.map key).Nodup

namespace Keyed

@[ext] theorem ext {t u : Keyed key} (h : t.rows = u.rows) : t = u := by
  cases t; cases u; cases h; rfl

/-- The empty table. -/
def empty : Keyed key := ⟨[], List.nodup_nil⟩

@[simp] theorem rows_empty : (empty : Keyed key).rows = [] := rfl

theorem rows_nodup (t : Keyed key) : t.rows.Nodup := t.nodup.of_map _

/-- Two rows of one table with the same key are the same row. -/
theorem eq_of_key_eq (t : Keyed key) {a b : R} (ha : a ∈ t.rows) (hb : b ∈ t.rows)
    (h : key a = key b) : a = b :=
  List.inj_on_of_nodup_map t.nodup ha hb h

/-- Keep the rows that satisfy `p`. -/
def retain (t : Keyed key) (p : R → Bool) : Keyed key :=
  ⟨t.rows.filter p, t.nodup.sublist (List.filter_sublist.map key)⟩

@[simp] theorem mem_retain {t : Keyed key} {p : R → Bool} {a : R} :
    a ∈ (t.retain p).rows ↔ a ∈ t.rows ∧ p a = true := List.mem_filter

/-- Apply a row transformation that keeps every key. -/
def mapRows (t : Keyed key) (f : R → R) (hf : ∀ r, key (f r) = key r) : Keyed key :=
  ⟨t.rows.map f, by
    rw [List.map_map, show key ∘ f = key from funext hf]
    exact t.nodup⟩

@[simp] theorem rows_mapRows (t : Keyed key) (f : R → R) (hf : ∀ r, key (f r) = key r) :
    (t.mapRows f hf).rows = t.rows.map f := rfl

section Lookup

variable [DecidableEq K]

/-- Is there a row with key `k`? -/
def contains (t : Keyed key) (k : K) : Bool := t.rows.any fun r => key r = k

/-- The row with key `k`, if any. -/
def find? (t : Keyed key) (k : K) : Option R := t.rows.find? fun r => key r = k

theorem contains_iff {t : Keyed key} {k : K} :
    t.contains k = true ↔ ∃ r ∈ t.rows, key r = k := by
  simp [contains]

theorem contains_eq_false_iff {t : Keyed key} {k : K} :
    t.contains k = false ↔ ∀ r ∈ t.rows, key r ≠ k := by
  simp [contains]

@[simp] theorem contains_empty (k : K) : (empty : Keyed key).contains k = false := rfl

theorem contains_of_mem {t : Keyed key} {r : R} (h : r ∈ t.rows) :
    t.contains (key r) = true := contains_iff.mpr ⟨r, h, rfl⟩

theorem find?_eq_some_iff {t : Keyed key} {k : K} {r : R} :
    t.find? k = some r ↔ r ∈ t.rows ∧ key r = k := by
  constructor
  · intro h
    exact ⟨List.mem_of_find?_eq_some h, by simpa using List.find?_some h⟩
  · rintro ⟨hr, hk⟩
    cases hf : t.find? k with
    | none =>
      have := List.find?_eq_none.mp hf r hr
      simp [hk] at this
    | some r' =>
      have hr' : r' ∈ t.rows := List.mem_of_find?_eq_some hf
      have hk' : key r' = k := by simpa using List.find?_some hf
      rw [t.eq_of_key_eq hr' hr (hk'.trans hk.symm)]

/-- Among the rows that pass a test, a key is there once or not at all. -/
theorem countP_filter_key (t : Keyed key) (p : R → Bool) {r : R} (hr : r ∈ t.rows) :
    (t.rows.filter p).countP (fun a => key a = key r) = if p r then 1 else 0 := by
  have hsame : ∀ a ∈ t.rows.filter p, (decide (key a = key r) = true ↔ a = r) := by
    intro a ha
    rw [decide_eq_true_iff]
    exact ⟨t.eq_of_key_eq (List.mem_filter.mp ha).1 hr, congrArg key⟩
  have hnodup : (t.rows.filter p).Nodup := t.rows_nodup.filter p
  split
  · next hp =>
    have hmem : r ∈ t.rows.filter p := List.mem_filter.mpr ⟨hr, hp⟩
    obtain ⟨as, bs, heq⟩ := List.append_of_mem hmem
    rw [heq] at hsame hnodup ⊢
    have hnot : ∀ a ∈ as ++ bs, ¬ decide (key a = key r) = true := by
      intro a ha hk
      have hmem' : a ∈ as ++ r :: bs := by
        simp only [List.mem_append, List.mem_cons] at ha ⊢
        exact ha.imp_right Or.inr
      rw [(hsame a hmem').mp hk] at ha
      exact (List.nodup_middle.mp hnodup).notMem ha
    have hzero := List.countP_eq_zero.mpr hnot
    rw [List.countP_append] at hzero
    rw [List.countP_append, List.countP_cons_of_pos (by simp)]
    omega
  · next hp =>
    rw [List.countP_eq_zero]
    intro a ha hk
    rw [(hsame a ha).mp hk] at ha
    exact hp (List.mem_filter.mp ha).2

/-- Taking one row out takes it out of a count. -/
theorem countP_remove (t : Keyed key) (f : R → Bool) {r : R} (hr : r ∈ t.rows) :
    (t.retain fun a => key a ≠ key r).rows.countP f + (if f r then 1 else 0) =
      t.rows.countP f := by
  have hkey := t.countP_filter_key f hr
  have hsplit : t.rows.countP f = (t.rows.filter fun a => key a ≠ key r).countP f +
      (t.rows.filter fun a => !decide (key a ≠ key r)).countP f :=
    List.countP_eq_countP_filter_add ..
  have hsame : (t.rows.filter fun a => !decide (key a ≠ key r)).countP f =
      (t.rows.filter f).countP fun a => key a = key r := by
    rw [List.countP_filter, List.countP_filter]
    refine List.countP_congr fun a _ => ?_
    simp [and_comm]
  rw [hsplit, hsame, hkey]
  rfl

theorem find?_eq_none_iff {t : Keyed key} {k : K} :
    t.find? k = none ↔ t.contains k = false := by
  simp [find?, contains]

@[simp] theorem contains_mapRows (t : Keyed key) (f : R → R) (hf : ∀ r, key (f r) = key r) (k : K) :
    (t.mapRows f hf).contains k = t.contains k := by
  rw [contains, rows_mapRows, List.any_map, contains]
  congr 1
  funext r
  simp [hf]

theorem find?_mapRows (t : Keyed key) (f : R → R) (hf : ∀ r, key (f r) = key r) (k : K) :
    (t.mapRows f hf).find? k = (t.find? k).map f := by
  have hcomp : (fun r => decide (key r = k)) ∘ f = fun r => decide (key r = k) := by
    funext r
    simp [hf]
  rw [find?, rows_mapRows, List.find?_map, hcomp]
  rfl

private theorem nodup_append_single {t : Keyed key} {r : R} (h : t.contains (key r) = false) :
    ((t.rows ++ [r]).map key).Nodup := by
  rw [List.map_append, List.nodup_append]
  refine ⟨t.nodup, by simp, ?_⟩
  intro a ha b hb
  obtain ⟨x, hx, rfl⟩ := List.mem_map.mp ha
  simp only [List.map_cons, List.map_nil, List.mem_singleton] at hb
  rw [hb]
  exact contains_eq_false_iff.mp h x hx

/-- Append the row unless its key is taken: `INSERT OR IGNORE`. -/
def insertOrIgnore (t : Keyed key) (r : R) : Keyed key :=
  if h : t.contains (key r) = false then ⟨t.rows ++ [r], nodup_append_single h⟩ else t

theorem insertOrIgnore_of_contains {t : Keyed key} {r : R} (h : t.contains (key r) = true) :
    t.insertOrIgnore r = t := by
  simp [insertOrIgnore, h]

theorem rows_insertOrIgnore {t : Keyed key} {r : R} (h : t.contains (key r) = false) :
    (t.insertOrIgnore r).rows = t.rows ++ [r] := by
  simp [insertOrIgnore, h]

theorem mem_insertOrIgnore {t : Keyed key} {r a : R} :
    a ∈ (t.insertOrIgnore r).rows ↔ a ∈ t.rows ∨ (t.contains (key r) = false ∧ a = r) := by
  cases h : t.contains (key r) with
  | true => simp [insertOrIgnore_of_contains h]
  | false => simp [rows_insertOrIgnore h]

theorem contains_insertOrIgnore {t : Keyed key} {r : R} {k : K} :
    (t.insertOrIgnore r).contains k = true ↔ t.contains k = true ∨ key r = k := by
  simp only [contains_iff, mem_insertOrIgnore]
  constructor
  · rintro ⟨a, ha | ⟨_, rfl⟩, hk⟩
    · exact Or.inl ⟨a, ha, hk⟩
    · exact Or.inr hk
  · rintro (⟨a, ha, hk⟩ | hk)
    · exact ⟨a, Or.inl ha, hk⟩
    · cases h : t.contains (key r) with
      | true =>
        obtain ⟨a, ha, hka⟩ := contains_iff.mp h
        exact ⟨a, Or.inl ha, hka.trans hk⟩
      | false => exact ⟨r, Or.inr ⟨rfl, rfl⟩, hk⟩

/-- Replace the row with the same key, or append: the `insert` of a hash map. -/
def upsert (t : Keyed key) (r : R) : Keyed key :=
  (t.retain fun a => key a ≠ key r).insertOrIgnore r

private theorem retain_contains (t : Keyed key) (r : R) :
    (t.retain fun a => key a ≠ key r).contains (key r) = false := by
  rw [contains_eq_false_iff]
  intro a ha
  simpa using (mem_retain.mp ha).2

theorem mem_upsert {t : Keyed key} {r a : R} :
    a ∈ (t.upsert r).rows ↔ (a ∈ t.rows ∧ key a ≠ key r) ∨ a = r := by
  rw [upsert, mem_insertOrIgnore, retain_contains]
  simp

theorem rows_upsert_of_not_contains {t : Keyed key} {r : R} (h : t.contains (key r) = false) :
    (t.upsert r).rows = t.rows ++ [r] := by
  have hk : (t.retain fun a => key a ≠ key r).rows = t.rows := by
    refine List.filter_eq_self.mpr fun a ha => ?_
    simpa using contains_eq_false_iff.mp h a ha
  rw [upsert, rows_insertOrIgnore (retain_contains t r), hk]

theorem find?_upsert (t : Keyed key) (r : R) (k : K) :
    (t.upsert r).find? k = if key r = k then some r else t.find? k := by
  split
  · next h => exact find?_eq_some_iff.mpr ⟨mem_upsert.mpr (Or.inr rfl), h⟩
  · next h =>
    cases hf : t.find? k with
    | none =>
      rw [find?_eq_none_iff, contains_eq_false_iff]
      intro a ha
      rcases mem_upsert.mp ha with ⟨ha, -⟩ | rfl
      · exact contains_eq_false_iff.mp (find?_eq_none_iff.mp hf) a ha
      · exact h
    | some a =>
      obtain ⟨ha, hk⟩ := find?_eq_some_iff.mp hf
      exact find?_eq_some_iff.mpr
        ⟨mem_upsert.mpr (Or.inl ⟨ha, fun e => h (e.symm.trans hk)⟩), hk⟩

/-! ## First one wins -/

/-- Insert a list of rows in order; a taken key is ignored. -/
def insertAll (t : Keyed key) (l : List R) : Keyed key := l.foldl insertOrIgnore t

@[simp] theorem insertAll_nil (t : Keyed key) : t.insertAll [] = t := rfl

@[simp] theorem insertAll_cons (t : Keyed key) (r : R) (l : List R) :
    t.insertAll (r :: l) = (t.insertOrIgnore r).insertAll l := rfl

theorem insertAll_append (t : Keyed key) (l₁ l₂ : List R) :
    t.insertAll (l₁ ++ l₂) = (t.insertAll l₁).insertAll l₂ := List.foldl_append

/-- A row is in the table afterwards exactly when it was there before, or its
key was free and it is the first row of the list with that key. -/
theorem mem_insertAll (t : Keyed key) (l : List R) (a : R) :
    a ∈ (t.insertAll l).rows ↔
      a ∈ t.rows ∨ (t.contains (key a) = false ∧ l.find? (fun r => key r = key a) = some a) := by
  induction l generalizing t with
  | nil => simp
  | cons r l ih =>
    rw [insertAll_cons, ih, mem_insertOrIgnore]
    have hc := @contains_insertOrIgnore _ _ _ _ t r (key a)
    by_cases hk : key r = key a
    · -- the head decides this key: nothing later can be inserted under it
      have : (t.insertOrIgnore r).contains (key a) = true := hc.mpr (Or.inr hk)
      simp only [this, List.find?_cons, hk, decide_true]
      constructor
      · rintro ((h | ⟨h, rfl⟩) | ⟨h, -⟩)
        · exact Or.inl h
        · exact Or.inr ⟨h, rfl⟩
        · cases h
      · rintro (h | ⟨h, e⟩)
        · exact Or.inl (Or.inl h)
        · cases e
          exact Or.inl (Or.inr ⟨h, rfl⟩)
    · have he : (t.insertOrIgnore r).contains (key a) = t.contains (key a) := by
        rw [Bool.eq_iff_iff, hc]
        simp [hk]
      have hne : a ≠ r := fun e => hk (by rw [e])
      simp only [he, List.find?_cons, hk, decide_false, hne, and_false, or_false]

/-- Every row of the table afterwards was there or is one of the list. -/
theorem mem_of_mem_insertAll {t : Keyed key} {l : List R} {a : R}
    (h : a ∈ (t.insertAll l).rows) : a ∈ t.rows ∨ a ∈ l := by
  rcases (mem_insertAll t l a).mp h with h | ⟨-, h⟩
  · exact Or.inl h
  · exact Or.inr (List.mem_of_find?_eq_some h)

theorem contains_insertAll {t : Keyed key} {l : List R} {k : K} :
    (t.insertAll l).contains k = true ↔ t.contains k = true ∨ ∃ r ∈ l, key r = k := by
  induction l generalizing t with
  | nil => simp
  | cons r l ih =>
    rw [insertAll_cons, ih, contains_insertOrIgnore]
    simp [or_assoc]

/-- The row of a key afterwards: the old one, else the first of the list. -/
theorem find?_insertAll (t : Keyed key) (l : List R) (k : K) :
    (t.insertAll l).find? k = (t.find? k).or (l.find? fun r => key r = k) := by
  cases ht : t.find? k with
  | some a =>
    obtain ⟨ha, hk⟩ := find?_eq_some_iff.mp ht
    exact find?_eq_some_iff.mpr ⟨(mem_insertAll ..).mpr (Or.inl ha), hk⟩
  | none =>
    have hfree := find?_eq_none_iff.mp ht
    cases hl : l.find? fun r => key r = k with
    | some a =>
      have hk : key a = k := by simpa using List.find?_some hl
      refine find?_eq_some_iff.mpr ⟨(mem_insertAll ..).mpr (Or.inr ?_), hk⟩
      rw [hk]
      exact ⟨hfree, hl⟩
    | none =>
      rw [Option.none_or, find?_eq_none_iff, contains_eq_false_iff]
      intro a ha
      rcases (mem_insertAll ..).mp ha with ha | ⟨-, ha⟩
      · exact contains_eq_false_iff.mp hfree a ha
      · simpa using List.find?_eq_none.mp hl a (List.mem_of_find?_eq_some ha)

/-- Rows with new and distinct keys are all appended. -/
theorem rows_insertAll_of_nodup {t : Keyed key} {l : List R}
    (h : ((t.rows ++ l).map key).Nodup) : (t.insertAll l).rows = t.rows ++ l := by
  induction l generalizing t with
  | nil => simp
  | cons r l ih =>
    have hfree : t.contains (key r) = false := by
      rw [contains_eq_false_iff]
      intro a ha heq
      rw [List.map_append, List.nodup_append] at h
      exact h.2.2 _ (List.mem_map_of_mem ha) _ (List.mem_map_of_mem (by simp)) heq
    have hrows := rows_insertOrIgnore hfree
    rw [insertAll_cons, ih (by rw [hrows]; simpa using h), hrows, List.append_assoc]
    rfl

/-- Two orders of insertion in which every key has the same first row fill a
table with the same rows. -/
theorem insertAll_perm (t : Keyed key) (l₁ l₂ : List R)
    (h : ∀ k, l₁.find? (fun r => key r = k) = l₂.find? (fun r => key r = k)) :
    (t.insertAll l₁).rows.Perm (t.insertAll l₂).rows := by
  rw [List.perm_ext_iff_of_nodup (rows_nodup _) (rows_nodup _)]
  intro a
  rw [mem_insertAll, mem_insertAll, h]

end Lookup

end Keyed

/-! ## Sorting by a key -/

section Sorting

variable {B : Type} [LinearOrder B]

/-- Stable sort by the key `f`. -/
def sortByKey (f : R → B) (l : List R) : List R := l.insertionSort fun a b => f a ≤ f b

theorem sortByKey_perm_self (f : R → B) (l : List R) : (sortByKey f l).Perm l :=
  List.perm_insertionSort _ _

theorem mem_sortByKey {f : R → B} {l : List R} {a : R} : a ∈ sortByKey f l ↔ a ∈ l :=
  (sortByKey_perm_self f l).mem_iff

theorem pairwise_sortByKey (f : R → B) (l : List R) :
    (sortByKey f l).Pairwise fun a b => f a ≤ f b :=
  haveI : Std.Total (fun a b : R => f a ≤ f b) := ⟨fun a b => le_total (f a) (f b)⟩
  haveI : IsTrans R (fun a b => f a ≤ f b) := ⟨fun _ _ _ => le_trans⟩
  List.pairwise_insertionSort _ _

/-- Sorting by a key that tells the elements apart does not depend on the input order. -/
theorem sortByKey_perm_of_injOn {f : R → B} {l₁ l₂ : List R}
    (hf : ∀ a ∈ l₁, ∀ b ∈ l₁, f a = f b → a = b) (h : l₁.Perm l₂) :
    sortByKey f l₁ = sortByKey f l₂ := by
  have hp : (sortByKey f l₁).Perm (sortByKey f l₂) :=
    (sortByKey_perm_self f l₁).trans (h.trans (sortByKey_perm_self f l₂).symm)
  refine hp.eq_of_pairwise ?_ (pairwise_sortByKey f l₁) (pairwise_sortByKey f l₂)
  intro a b ha hb hab hba
  exact hf a (mem_sortByKey.mp ha) b (h.mem_iff.mpr (mem_sortByKey.mp hb)) (le_antisymm hab hba)

/-- Sorting by an injective key does not depend on the input order. -/
theorem sortByKey_perm {f : R → B} (hf : Function.Injective f) {l₁ l₂ : List R}
    (h : l₁.Perm l₂) : sortByKey f l₁ = sortByKey f l₂ :=
  sortByKey_perm_of_injOn (fun _ _ _ _ heq => hf heq) h

/-- Sorting by a key that tells the elements apart is strict. -/
theorem pairwise_lt_sortByKey {f : R → B} {l : List R} (hl : l.Nodup)
    (hf : ∀ a ∈ l, ∀ b ∈ l, f a = f b → a = b) :
    (sortByKey f l).Pairwise fun a b => f a < f b := by
  have hnd : (sortByKey f l).Nodup := (sortByKey_perm_self f l).nodup_iff.mpr hl
  refine ((pairwise_sortByKey f l).and hnd).imp_of_mem ?_
  rintro a b ha hb ⟨hle, hne⟩
  exact lt_of_le_of_ne hle fun heq => hne (hf a (mem_sortByKey.mp ha) b (mem_sortByKey.mp hb) heq)

/-- A strictly sorted list has no repeats. -/
theorem nodup_of_pairwise_lt {f : R → B} {l : List R} (h : l.Pairwise fun a b => f a < f b) :
    l.Nodup := by
  refine h.imp ?_
  rintro a _ hab rfl
  exact lt_irrefl _ hab

/-- Removing adjacent repeats loses no element. -/
theorem mem_destutter_ne [DecidableEq R] {l : List R} {a : R} : a ∈ l.destutter (· ≠ ·) ↔ a ∈ l := by
  refine ⟨fun h => (List.destutter_sublist _ l).subset h, fun h => ?_⟩
  cases l with
  | nil => cases h
  | cons b l =>
    rw [List.destutter_cons']
    induction l generalizing b with
    | nil => exact h
    | cons c l ih =>
      by_cases hbc : b ≠ c
      · rw [List.destutter'_cons_pos _ hbc]
        rcases List.mem_cons.mp h with rfl | h
        · exact List.mem_cons_self
        · exact List.mem_cons_of_mem _ (ih c h)
      · rw [List.destutter'_cons_neg _ hbc]
        obtain rfl := not_not.mp hbc
        exact ih b (by simpa using h)

/-- A sorted list without adjacent repeats is strictly sorted. -/
theorem pairwise_lt_destutter [DecidableEq R] {f : R → B} (hf : Function.Injective f) {l : List R}
    (h : l.Pairwise fun a b => f a ≤ f b) :
    (l.destutter (· ≠ ·)).Pairwise fun a b => f a < f b := by
  have hle := h.sublist (List.destutter_sublist (· ≠ ·) l)
  have hne := List.isChain_destutter (· ≠ ·) l
  have hchain : (l.destutter (· ≠ ·)).IsChain fun a b => f a < f b := by
    rw [List.isChain_iff_getElem] at hne ⊢
    intro i hi
    have hi' := List.pairwise_iff_getElem.mp hle i (i + 1) (by omega) hi (by omega)
    exact lt_of_le_of_ne hi' fun heq => hne i hi (hf heq)
  have : IsTrans R (fun a b => f a < f b) := ⟨fun _ _ _ => lt_trans⟩
  exact List.isChain_iff_pairwise.mp hchain

/-- In a strictly sorted list the first `n` elements are those with fewer than
`n` below them. -/
theorem mem_take_iff_countP {f : R → B} {l : List R} (h : l.Pairwise fun a b => f a < f b)
    {a : R} {n : Nat} : a ∈ l.take n ↔ a ∈ l ∧ l.countP (fun b => f b < f a) < n := by
  induction l generalizing n with
  | nil => simp
  | cons b l ih =>
    obtain ⟨hb, hl⟩ := List.pairwise_cons.mp h
    cases n with
    | zero => simp
    | succ n =>
      rw [List.take_succ_cons, List.mem_cons, List.mem_cons, ih hl, List.countP_cons]
      by_cases hab : a = b
      · subst hab
        have hzero : l.countP (fun c => f c < f a) = 0 := by
          rw [List.countP_eq_zero]
          intro c hc
          simpa using (hb c hc).le
        simp [hzero]
      · constructor
        · rintro (rfl | ⟨ha, hlt⟩)
          · exact absurd rfl hab
          · refine ⟨Or.inr ha, ?_⟩
            split <;> omega
        · rintro ⟨rfl | ha, hlt⟩
          · exact absurd rfl hab
          · refine Or.inr ⟨ha, ?_⟩
            rw [if_pos (by simpa using hb a ha)] at hlt
            omega

/-- The first element of a sorted list that is wanted is below every other that is. -/
theorem find?_sortByKey {f : R → B} {l : List R} {wanted : R → Bool} {a : R}
    (h : (sortByKey f l).find? wanted = some a) :
    a ∈ l ∧ wanted a = true ∧ ∀ b ∈ l, wanted b = true → f a ≤ f b := by
  obtain ⟨ha, pre, post, hsplit, hpre⟩ := List.find?_eq_some_iff_append.mp h
  have hp := pairwise_sortByKey f l
  have hm := @mem_sortByKey _ _ _ f l
  rw [hsplit] at hp hm
  refine ⟨hm.mp (by simp), ha, fun b hb hwanted => ?_⟩
  rcases List.mem_append.mp (hm.mpr hb) with hb | hb
  · exact absurd hwanted (by simpa using hpre b hb)
  · rcases List.mem_cons.mp hb with rfl | hb
    · exact le_refl _
    · exact (List.pairwise_cons.mp (List.pairwise_append.mp hp).2.1).1 b hb

/-- The first element of a sorted list is below every other. -/
theorem head?_sortByKey {f : R → B} {l : List R} {a : R}
    (h : (sortByKey f l).head? = some a) : a ∈ l ∧ ∀ b ∈ l, f a ≤ f b := by
  have hfind : (sortByKey f l).find? (fun _ => true) = some a := by
    rw [← h]
    cases sortByKey f l <;> rfl
  obtain ⟨ha, -, hle⟩ := find?_sortByKey hfind
  exact ⟨ha, fun b hb => hle b hb rfl⟩

end Sorting

end Parseh.Lib
