import Parseh.Lib.Keyed

/-!
# A bounded cache with least-recently-used eviction

Entries are kept most recently used first.  `put` moves its key to the front
and drops the back entry when the capacity is exceeded; a hit moves its key to
the front and evicts nothing (`mem_put_of_contains`).  `mem_put_iff` says what a
`put` loses: the entries it displaces.
-/

namespace Parseh.Lib

variable {K V : Type}

/-- At most `cap` entries with distinct keys, most recently used first. -/
structure LruCache (K V : Type) where
  entries : Keyed (Prod.fst : K × V → K)
  cap : Nat
  bound : entries.rows.length ≤ cap

namespace LruCache

/-- The empty cache of the given capacity. -/
def new (cap : Nat) : LruCache K V := ⟨Keyed.empty, cap, Nat.zero_le _⟩

/-- Change every value in place, keeping keys and recency. -/
def mapValues (c : LruCache K V) (f : V → V) : LruCache K V :=
  ⟨c.entries.mapRows (fun p => (p.1, f p.2)) (fun _ => rfl), c.cap, by
    rw [Keyed.rows_mapRows, List.length_map]; exact c.bound⟩

/-- Keep the entries that satisfy `p`. -/
def retain (c : LruCache K V) (p : K × V → Bool) : LruCache K V :=
  ⟨c.entries.retain p, c.cap, (List.length_filter_le ..).trans c.bound⟩

@[simp] theorem mem_mapValues {c : LruCache K V} {f : V → V} {k : K} {v : V} :
    (k, v) ∈ (c.mapValues f).entries.rows ↔ ∃ w, (k, w) ∈ c.entries.rows ∧ f w = v := by
  simp [mapValues]

@[simp] theorem mem_retain {c : LruCache K V} {p : K × V → Bool} {e : K × V} :
    e ∈ (c.retain p).entries.rows ↔ e ∈ c.entries.rows ∧ p e = true := Keyed.mem_retain

variable [DecidableEq K]

/-- Look a key up without touching the recency order. -/
def peek (c : LruCache K V) (k : K) : Option V := (c.entries.find? k).map Prod.snd

theorem peek_eq_some_iff {c : LruCache K V} {k : K} {v : V} :
    c.peek k = some v ↔ (k, v) ∈ c.entries.rows := by
  simp only [peek, Option.map_eq_some_iff, Keyed.find?_eq_some_iff, Prod.exists]
  constructor
  · rintro ⟨_, _, ⟨h, rfl⟩, rfl⟩
    exact h
  · intro h
    exact ⟨k, v, ⟨h, rfl⟩, rfl⟩

theorem peek_eq_none_iff {c : LruCache K V} {k : K} :
    c.peek k = none ↔ ∀ v, (k, v) ∉ c.entries.rows := by
  constructor
  · intro h v hv
    rw [peek_eq_some_iff.mpr hv] at h
    cases h
  · intro h
    cases hp : c.peek k with
    | none => rfl
    | some v => exact absurd (peek_eq_some_iff.mp hp) (h v)

/-- The rows with `(k, v)` moved to the front. -/
def frontRows (c : LruCache K V) (k : K) (v : V) : List (K × V) :=
  (k, v) :: c.entries.rows.filter fun e => e.1 ≠ k

theorem frontRows_nodup (c : LruCache K V) (k : K) (v : V) :
    ((c.frontRows k v).map Prod.fst).Nodup := by
  rw [frontRows, List.map_cons, List.nodup_cons]
  refine ⟨?_, c.entries.nodup.sublist (List.filter_sublist.map _)⟩
  intro h
  obtain ⟨e, he, hk⟩ := List.mem_map.mp h
  exact (by simpa using (List.mem_filter.mp he).2 : e.1 ≠ k) hk

/-- Store a value under `k`, most recently used, evicting the back entry if the
capacity is exceeded. -/
def put (c : LruCache K V) (k : K) (v : V) : LruCache K V :=
  ⟨⟨(c.frontRows k v).take c.cap,
    (c.frontRows_nodup k v).sublist ((List.take_sublist ..).map _)⟩, c.cap,
    (List.length_take_le ..)⟩

/-- A lookup that counts as a use. -/
def get (c : LruCache K V) (k : K) : Option V × LruCache K V :=
  match c.peek k with
  | none => (none, c)
  | some v => (some v, c.put k v)

/-- A lookup for writing: apply `f` to the value found, which counts as a use. -/
def getMut (c : LruCache K V) (k : K) (f : V → V) : LruCache K V :=
  match c.peek k with
  | none => c
  | some v => c.put k (f v)

theorem mem_frontRows {c : LruCache K V} {k : K} {v : V} {e : K × V} :
    e ∈ c.frontRows k v ↔ e = (k, v) ∨ (e ∈ c.entries.rows ∧ e.1 ≠ k) := by
  simp [frontRows]

/-- After a `put` only the new entry and old entries of other keys are left. -/
theorem mem_put {c : LruCache K V} {k : K} {v : V} {e : K × V}
    (h : e ∈ (c.put k v).entries.rows) : e = (k, v) ∨ (e ∈ c.entries.rows ∧ e.1 ≠ k) :=
  mem_frontRows.mp (List.mem_of_mem_take h)

theorem mem_put_self {c : LruCache K V} (hc : 0 < c.cap) (k : K) (v : V) :
    (k, v) ∈ (c.put k v).entries.rows := by
  obtain ⟨n, hn⟩ := Nat.exists_eq_succ_of_ne_zero hc.ne'
  simp [put, frontRows, hn, List.take_succ_cons]

theorem frontRows_length_le {c : LruCache K V} {k : K} {w : V} (h : (k, w) ∈ c.entries.rows)
    (v : V) : (c.frontRows k v).length ≤ c.cap := by
  have hlt : (c.entries.rows.filter fun e => e.1 ≠ k).length < c.entries.rows.length := by
    refine List.length_filter_lt_length_iff_exists.mpr ⟨(k, w), h, ?_⟩
    simp
  have := c.bound
  simp only [frontRows, List.length_cons]
  omega

/-- A `put` on a present key evicts nothing. -/
theorem mem_put_of_contains {c : LruCache K V} {k : K} {w : V} (h : (k, w) ∈ c.entries.rows)
    {v : V} {e : K × V} :
    e ∈ (c.put k v).entries.rows ↔ e = (k, v) ∨ (e ∈ c.entries.rows ∧ e.1 ≠ k) := by
  simp only [put, List.take_of_length_le (frontRows_length_le h v)]
  exact mem_frontRows

theorem mem_get {c : LruCache K V} {k : K} {e : K × V} :
    e ∈ (c.get k).2.entries.rows ↔ e ∈ c.entries.rows := by
  unfold get
  cases hp : c.peek k with
  | none => rfl
  | some v =>
    have hv := peek_eq_some_iff.mp hp
    simp only [mem_put_of_contains hv]
    constructor
    · rintro (rfl | ⟨h, -⟩)
      · exact hv
      · exact h
    · intro h
      by_cases hk : e.1 = k
      · exact Or.inl (c.entries.eq_of_key_eq h hv hk)
      · exact Or.inr ⟨h, hk⟩

theorem get_fst (c : LruCache K V) (k : K) : (c.get k).1 = c.peek k := by
  unfold get
  cases c.peek k <;> rfl

@[simp] theorem cap_get (c : LruCache K V) (k : K) : (c.get k).2.cap = c.cap := by
  unfold get
  cases c.peek k <;> rfl

@[simp] theorem cap_getMut (c : LruCache K V) (k : K) (f : V → V) :
    (c.getMut k f).cap = c.cap := by
  unfold getMut
  cases c.peek k <;> rfl

theorem mem_getMut {c : LruCache K V} {k : K} {f : V → V} {e : K × V} :
    e ∈ (c.getMut k f).entries.rows ↔
      (∃ v, (k, v) ∈ c.entries.rows ∧ e = (k, f v)) ∨ (e ∈ c.entries.rows ∧ e.1 ≠ k) := by
  unfold getMut
  cases hp : c.peek k with
  | none =>
    have hn := peek_eq_none_iff.mp hp
    constructor
    · intro h
      exact Or.inr ⟨h, fun hk => hn e.2 (hk ▸ h)⟩
    · rintro (⟨v, hv, -⟩ | ⟨h, -⟩)
      · exact absurd hv (hn v)
      · exact h
  | some w =>
    have hw := peek_eq_some_iff.mp hp
    simp only [mem_put_of_contains hw]
    constructor
    · rintro (h | h)
      · exact Or.inl ⟨w, hw, h⟩
      · exact Or.inr h
    · rintro (⟨v, hv, h⟩ | h)
      · -- the key is unique, so the value written is the one found
        have : (k, v) = (k, w) := c.entries.eq_of_key_eq hv hw rfl
        cases this
        exact Or.inl h
      · exact Or.inr h

/-! ## What a `put` displaces -/

/-- The entry a `put` under `k` pushes out of a full cache. -/
def victim (c : LruCache K V) (k : K) : Option (K × V) :=
  if (c.peek k).isNone ∧ c.cap ≤ c.entries.rows.length then c.entries.rows.getLast? else none

/-- The entries a `put` under `k` overwrites or evicts. -/
def displaced (c : LruCache K V) (k : K) : List (K × V) :=
  c.entries.rows.filter (fun e => e.1 = k) ++ (c.victim k).toList

theorem victim_of_peek {c : LruCache K V} {k : K} {v : V} (h : c.peek k = some v) :
    c.victim k = none := by
  simp [victim, h]

theorem mem_of_victim {c : LruCache K V} {k : K} {e : K × V} (h : c.victim k = some e) :
    e ∈ c.entries.rows := by
  unfold victim at h
  split at h
  · exact List.mem_of_getLast? h
  · cases h

theorem mem_displaced {c : LruCache K V} {k : K} {e : K × V} :
    e ∈ c.displaced k ↔ (e ∈ c.entries.rows ∧ e.1 = k) ∨ c.victim k = some e := by
  simp [displaced]

theorem mem_rows_of_displaced {c : LruCache K V} {k : K} {e : K × V} (h : e ∈ c.displaced k) :
    e ∈ c.entries.rows := by
  rcases mem_displaced.mp h with ⟨h, -⟩ | h
  · exact h
  · exact mem_of_victim h

/-- A full list without repetitions loses exactly its last element. -/
private theorem mem_take_of_full {R : Type} {l : List R} {n : Nat} (hl : l.Nodup)
    (hlen : l.length = n + 1) {a : R} : a ∈ l.take n ↔ a ∈ l ∧ l.getLast? ≠ some a := by
  have hne : l ≠ [] := by
    intro h
    simp [h] at hlen
  have hsplit := List.dropLast_append_getLast hne
  have htake : l.take n = l.dropLast := by
    rw [List.dropLast_eq_take, hlen, Nat.add_sub_cancel]
  rw [htake, List.getLast?_eq_some_getLast hne]
  rw [← hsplit, List.nodup_append] at hl
  constructor
  · intro ha
    refine ⟨(List.dropLast_sublist l).subset ha, fun heq => ?_⟩
    exact hl.2.2 a ha (l.getLast hne) (by simp) (Option.some.inj heq).symm
  · rintro ⟨ha, hlast⟩
    rw [← hsplit, List.mem_append, List.mem_singleton] at ha
    rcases ha with ha | rfl
    · exact ha
    · exact absurd rfl hlast

/-- **What a `put` leaves**: the new entry and every old one it does not displace. -/
theorem mem_put_iff {c : LruCache K V} (hc : 0 < c.cap) {k : K} {v : V} {e : K × V} :
    e ∈ (c.put k v).entries.rows ↔ e = (k, v) ∨ (e ∈ c.entries.rows ∧ e ∉ c.displaced k) := by
  cases hp : c.peek k with
  | some w =>
    rw [mem_put_of_contains (peek_eq_some_iff.mp hp)]
    refine or_congr_right (and_congr_right fun he => ?_)
    simp [mem_displaced, victim_of_peek hp, he]
  | none =>
    have hne : ∀ e ∈ c.entries.rows, e.1 ≠ k := by
      intro e he hk
      exact peek_eq_none_iff.mp hp e.2 (hk ▸ he)
    have hfilter : (c.entries.rows.filter fun e => e.1 ≠ k) = c.entries.rows := by
      refine List.filter_eq_self.mpr fun e he => ?_
      simpa using hne e he
    obtain ⟨n, hn⟩ := Nat.exists_eq_succ_of_ne_zero hc.ne'
    have hrows : (c.put k v).entries.rows = (k, v) :: c.entries.rows.take n := by
      simp only [put, frontRows, hfilter, hn, List.take_succ_cons]
    rw [hrows, List.mem_cons]
    refine or_congr_right ?_
    have hdisp : e ∈ c.entries.rows → (e ∉ c.displaced k ↔ c.victim k ≠ some e) := by
      intro he
      simp [mem_displaced, hne e he]
    have hbound := c.bound
    by_cases hfull : c.cap ≤ c.entries.rows.length
    · have hvictim : c.victim k = c.entries.rows.getLast? := by simp [victim, hp, hfull]
      rw [mem_take_of_full c.entries.rows_nodup (by omega)]
      refine and_congr_right fun he => ?_
      rw [hdisp he, hvictim]
    · have hvictim : c.victim k = none := by simp [victim, hfull]
      rw [List.take_of_length_le (by omega)]
      refine ⟨fun he => ⟨he, ?_⟩, And.left⟩
      rw [hdisp he, hvictim]
      simp

/-! ## Lookups after an operation -/

theorem peek_put_self {c : LruCache K V} (hc : 0 < c.cap) (k : K) (v : V) :
    (c.put k v).peek k = some v :=
  peek_eq_some_iff.mpr (mem_put_self hc k v)

/-- A `put` never makes another key appear. -/
theorem peek_put_eq_none {c : LruCache K V} {k k' : K} (h : c.peek k' = none) (hne : k' ≠ k)
    (v : V) : (c.put k v).peek k' = none := by
  rw [peek_eq_none_iff] at h ⊢
  intro w hw
  rcases mem_put hw with he | ⟨he, -⟩
  · cases he
    exact hne rfl
  · exact h w he

theorem peek_getMut_self {c : LruCache K V} {k : K} {v : V} (h : c.peek k = some v) (f : V → V) :
    (c.getMut k f).peek k = some (f v) :=
  peek_eq_some_iff.mpr (mem_getMut.mpr (Or.inl ⟨v, peek_eq_some_iff.mp h, rfl⟩))

theorem getMut_of_peek_eq_none {c : LruCache K V} {k : K} (h : c.peek k = none) (f : V → V) :
    c.getMut k f = c := by
  unfold getMut
  rw [h]

theorem peek_get (c : LruCache K V) (k k' : K) : (c.get k).2.peek k' = c.peek k' := by
  cases h : c.peek k' with
  | none =>
    rw [peek_eq_none_iff] at h ⊢
    exact fun v hv => h v (mem_get.mp hv)
  | some v => exact peek_eq_some_iff.mpr (mem_get.mpr (peek_eq_some_iff.mp h))

end LruCache

end Parseh.Lib
