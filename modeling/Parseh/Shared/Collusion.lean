import Mathlib.Data.UInt
import Parseh.Shared.Stubs
import Parseh.Shared.Timestamps

/-!
# Repeating verifier sets

`detect_repeating_verifier_sets` is documented to look at the outcomes finalised in
`[now - window_secs, now]`.  The query has no upper bound, and a window from `2^63`
seconds on is cast to a negative number, so that its lower bound is after `now`.

* `mem_verifierSets_iff`: the query collects one set for each `Valid` outcome from the
  bound on that has an agreeing vote;
* `mem_detect_iff`: it reports each submitter and set with the number of these;
* `detectExact_iff`: so it reports what it should exactly when the bound selects the
  outcomes of the window.
-/

namespace Parseh.Shared.SharedState

open Parseh.Lib Parseh.Wire

/-! ## What should be counted -/

/-- A `Valid` outcome of a task of this submitter, with this set of agreeing verifiers. -/
def OfGroup (s : SharedState) (p : PeerId) (V : Finset PeerId) (o : OutcomeRow) : Prop :=
  o.verdict = .valid ∧ s.submitterOf o.specHash = some p ∧ s.agreedSet o.resultHash = V

instance (s : SharedState) (p : PeerId) (V : Finset PeerId) (o : OutcomeRow) :
    Decidable (OfGroup s p V o) :=
  inferInstanceAs (Decidable (o.verdict = .valid ∧ s.submitterOf o.specHash = some p ∧
    s.agreedSet o.resultHash = V))

/-- The `finalised_at` of an outcome, of which the column is the cast. -/
def finalisedTime (o : OutcomeRow) : Nat := o.finalisedAt.toUInt64.toNat

/-- Finalised in `[now - window_secs, now]`. -/
def InWindow (now : Int64) (windowSecs : UInt64) (o : OutcomeRow) : Prop :=
  now.toInt - windowSecs.toNat ≤ finalisedTime o ∧ finalisedTime o ≤ now.toInt

instance (now : Int64) (windowSecs : UInt64) (o : OutcomeRow) :
    Decidable (InWindow now windowSecs o) :=
  inferInstanceAs (Decidable (now.toInt - windowSecs.toNat ≤ finalisedTime o ∧
    finalisedTime o ≤ now.toInt))

/-- The outcomes of a group that were finalised in the window. -/
def windowCount (s : SharedState) (now : Int64) (windowSecs : UInt64) (p : PeerId)
    (V : Finset PeerId) : Nat :=
  s.outcomes.rows.countP fun o => OfGroup s p V o ∧ InWindow now windowSecs o

/-- The outcomes of a group whose column is at least `cutoff`. -/
def cutoffCount (s : SharedState) (cutoff : Int) (p : PeerId) (V : Finset PeerId) : Nat :=
  s.outcomes.rows.countP fun o => OfGroup s p V o ∧ cutoff ≤ o.finalisedAt.toInt

variable {s : SharedState} {cutoff : Int}

theorem exists_submitterOf {o : OutcomeRow} (ho : o ∈ s.outcomes.rows) :
    ∃ p, s.submitterOf o.specHash = some p := by
  obtain ⟨t, ht, hspec⟩ := (references s).outcomeSpec o ho
  exact ⟨t.submitter, by rw [submitterOf, Keyed.find?_eq_some_iff.mpr ⟨ht, hspec⟩]; rfl⟩

/-! ## The sets of the query -/

/-- An entry is that of an outcome of its group. -/
theorem ofGroup_of_mem_verifierSets {e : VerifierSet} (he : e ∈ (s.verifierSets cutoff).rows) :
    ∃ o ∈ s.outcomes.rows, o.outcomeHash = e.outcomeHash ∧
      OfGroup s e.submitter e.verifiers.toFinset o ∧ cutoff ≤ o.finalisedAt.toInt := by
  have hset := (setOf_foldl (s.agreedJoin cutoff)).1 e he
  obtain ⟨v, hv⟩ := hset.submitter
  obtain ⟨o, ho, hhash, hvalid, hcut, hsub, -⟩ := mem_agreedJoin_iff.mp hv
  refine ⟨o, ho, hhash, ⟨hvalid, hsub, ?_⟩, hcut⟩
  ext u
  rw [List.mem_toFinset, hset.verifiers u]
  constructor
  · intro hu
    exact ⟨_, mem_agreedJoin_iff.mpr ⟨o, ho, hhash, hvalid, hcut, hsub, hu⟩⟩
  · rintro ⟨q, hq⟩
    obtain ⟨o', ho', hhash', -, -, -, hu⟩ := mem_agreedJoin_iff.mp hq
    rwa [s.outcomes.eq_of_key_eq ho' ho (hhash'.trans hhash.symm)] at hu

/-- **The sets of the query**: one for each `Valid` outcome from the bound on that has
an agreeing vote. -/
theorem mem_verifierSets_iff {e : VerifierSet} :
    e ∈ (s.verifierSets cutoff).rows ↔
      Ordered e.verifiers ∧ e.verifiers ≠ [] ∧
        ∃ o ∈ s.outcomes.rows, o.outcomeHash = e.outcomeHash ∧
          OfGroup s e.submitter e.verifiers.toFinset o ∧ cutoff ≤ o.finalisedAt.toInt := by
  obtain ⟨hsets, hkeys⟩ := setOf_foldl (s.agreedJoin cutoff)
  constructor
  · intro he
    exact ⟨(hsets e he).ordered, (hsets e he).nonempty, ofGroup_of_mem_verifierSets he⟩
  · rintro ⟨hord, hne, o, ho, hhash, ⟨hvalid, hsub, hset⟩, hcut⟩
    obtain ⟨v, hv⟩ := List.exists_mem_of_ne_nil _ hne
    have hjoined : (e.submitter, e.outcomeHash, v) ∈ s.agreedJoin cutoff := by
      refine mem_agreedJoin_iff.mpr ⟨o, ho, hhash, hvalid, hcut, hsub, ?_⟩
      rw [hset, List.mem_toFinset]
      exact hv
    -- the entry under this outcome is the one of the same outcome row
    obtain ⟨e', he', hhash'⟩ := Keyed.contains_iff.mp ((hkeys _).mpr ⟨_, hjoined, rfl⟩)
    obtain ⟨o', ho', hoh, ⟨-, hsub', hset'⟩, -⟩ := ofGroup_of_mem_verifierSets he'
    obtain rfl := s.outcomes.eq_of_key_eq ho' ho (hoh.trans (hhash'.trans hhash.symm))
    have hverifiers := (hsets e' he').ordered.eq hord (hset'.symm.trans hset)
    have hsubmitter : e'.submitter = e.submitter := Option.some.inj (hsub'.symm.trans hsub)
    have heq : e' = e := by
      cases e'
      cases e
      simp_all
    exact heq ▸ he'

/-! ## The groups of the query -/

def VerifierSet.key (e : VerifierSet) : PeerId × List PeerId := (e.submitter, e.verifiers)

/-- How many entries have a key. -/
def keyCount (l : List VerifierSet) (k : PeerId × List PeerId) : Nat := l.countP fun e => e.key = k

theorem keyCount_append (l : List VerifierSet) (e : VerifierSet) (k : PeerId × List PeerId) :
    keyCount (l ++ [e]) k = keyCount l k + if e.key = k then 1 else 0 := by
  rw [keyCount, List.countP_append, List.countP_singleton]
  simp [keyCount]

/-- The group of a key with a count. -/
theorem VerifierGroup.ext_key {g g' : VerifierGroup} (hkey : g.key = g'.key)
    (hcount : g.count = g'.count) : g = g' := by
  cases g
  cases g'
  simp_all [VerifierGroup.key]

section Groups

variable {m : Keyed VerifierGroup.key} {e : VerifierSet} {g : VerifierGroup}

theorem mem_countSet_other (h : e.key ≠ g.key) : g ∈ (countSet m e).rows ↔ g ∈ m.rows := by
  unfold countSet
  split
  · rw [Keyed.rows_mapRows, List.mem_map]
    constructor
    · rintro ⟨g₀, hg₀, rfl⟩
      by_cases hkey : g₀.key = (e.submitter, e.verifiers)
      · rw [if_pos hkey] at h
        exact absurd hkey.symm h
      · rw [if_neg hkey]
        exact hg₀
    · intro hg
      exact ⟨g, hg, if_neg (Ne.symm h)⟩
  · rw [Keyed.mem_insertOrIgnore]
    constructor
    · rintro (hg | ⟨-, rfl⟩)
      · exact hg
      · exact absurd rfl h
    · exact Or.inl

/-- The group of the entry goes up by one. -/
theorem mem_countSet_own (h : e.key = g.key) :
    g ∈ (countSet m e).rows ↔
      (∃ g₀ ∈ m.rows, g₀.key = g.key ∧ g.count = (g₀.count + 1) % 2 ^ 32) ∨
        (m.contains g.key = false ∧ g.count = 1) := by
  unfold countSet
  split
  · next hin =>
    rw [Keyed.rows_mapRows, List.mem_map]
    constructor
    · rintro ⟨g₀, hg₀, rfl⟩
      by_cases hkey : g₀.key = (e.submitter, e.verifiers)
      · rw [if_pos hkey]
        exact Or.inl ⟨g₀, hg₀, rfl, rfl⟩
      · rw [if_neg hkey] at h
        exact absurd h.symm hkey
    · rintro (⟨g₀, hg₀, hkey, hcount⟩ | ⟨hout, -⟩)
      · refine ⟨g₀, hg₀, ?_⟩
        have hown : g₀.key = (e.submitter, e.verifiers) := hkey.trans h.symm
        rw [if_pos hown]
        exact VerifierGroup.ext_key hkey hcount.symm
      · rw [← h] at hout
        exact absurd hin (by rw [show (e.submitter, e.verifiers) = e.key from rfl, hout]; decide)
  · next hout =>
    have hout' : m.contains g.key = false := by
      rw [← h]
      exact Bool.eq_false_iff.mpr hout
    rw [Keyed.mem_insertOrIgnore]
    constructor
    · rintro (hg | ⟨-, rfl⟩)
      · rw [Keyed.contains_of_mem hg] at hout'
        cases hout'
      · exact Or.inr ⟨hout', rfl⟩
    · rintro (⟨g₀, hg₀, hkey, -⟩ | ⟨-, hcount⟩)
      · rw [← hkey, Keyed.contains_of_mem hg₀] at hout'
        cases hout'
      · exact Or.inr ⟨Bool.eq_false_iff.mpr hout, VerifierGroup.ext_key h.symm hcount⟩

/-- **The groups of the fold**: each key that occurs, with the number of its entries. -/
theorem mem_foldl_countSet (l : List VerifierSet) (g : VerifierGroup) :
    g ∈ (l.foldl countSet Keyed.empty).rows ↔
      0 < keyCount l g.key ∧ g.count = keyCount l g.key % 2 ^ 32 := by
  induction l using List.reverseRecOn generalizing g with
  | nil => simp [keyCount]
  | append_singleton l e ih =>
    have hcontains : (l.foldl countSet Keyed.empty).contains g.key = true ↔
        0 < keyCount l g.key := by
      rw [Keyed.contains_iff]
      constructor
      · rintro ⟨g₀, hg₀, hkey⟩
        exact hkey ▸ ((ih g₀).mp hg₀).1
      · intro hpos
        exact ⟨⟨g.submitter, g.verifiers, keyCount l g.key % 2 ^ 32⟩, (ih _).mpr ⟨hpos, rfl⟩, rfl⟩
    rw [List.foldl_append, List.foldl_cons, List.foldl_nil, keyCount_append]
    by_cases hkey : e.key = g.key
    · rw [mem_countSet_own hkey, if_pos hkey, ← Bool.not_eq_true, hcontains]
      constructor
      · rintro (⟨g₀, hg₀, hsame, hcount⟩ | ⟨hnone, hcount⟩)
        · have hold := ((ih g₀).mp hg₀).2
          rw [hsame] at hold
          omega
        · omega
      · rintro ⟨-, hcount⟩
        by_cases hpos : 0 < keyCount l g.key
        · obtain ⟨g₀, hg₀, hsame⟩ := Keyed.contains_iff.mp (hcontains.mpr hpos)
          have hold := ((ih g₀).mp hg₀).2
          rw [hsame] at hold
          exact Or.inl ⟨g₀, hg₀, hsame, by omega⟩
        · exact Or.inr ⟨hpos, by omega⟩
    · rw [mem_countSet_other hkey, if_neg hkey, Nat.add_zero]
      exact ih g

end Groups

/-- The entries of a key stand for the outcomes of its group. -/
theorem keyCount_verifierSets (s : SharedState) (cutoff : Int) (p : PeerId) {vs : List PeerId}
    (hord : Ordered vs) (hne : vs ≠ []) :
    keyCount (s.verifierSets cutoff).rows (p, vs) = cutoffCount s cutoff p vs.toFinset := by
  let entries := (s.verifierSets cutoff).rows.filter fun e => e.key = (p, vs)
  let outcomes := s.outcomes.rows.filter fun o =>
    OfGroup s p vs.toFinset o ∧ cutoff ≤ o.finalisedAt.toInt
  have hperm : (entries.map VerifierSet.outcomeHash).Perm (outcomes.map OutcomeRow.outcomeHash) := by
    rw [List.perm_ext_iff_of_nodup
      ((s.verifierSets cutoff).nodup.sublist (List.filter_sublist.map _))
      (s.outcomes.nodup.sublist (List.filter_sublist.map _))]
    intro h
    simp only [List.mem_map, List.mem_filter, decide_eq_true_eq]
    constructor
    · rintro ⟨e, ⟨he, hkey⟩, rfl⟩
      obtain ⟨rfl, rfl⟩ := Prod.mk.inj hkey
      obtain ⟨-, -, o, ho, hhash, hgroup, hcut⟩ := mem_verifierSets_iff.mp he
      exact ⟨o, ⟨ho, hgroup, hcut⟩, hhash⟩
    · rintro ⟨o, ⟨ho, hgroup, hcut⟩, rfl⟩
      exact ⟨⟨o.outcomeHash, p, vs⟩,
        ⟨mem_verifierSets_iff.mpr ⟨hord, hne, o, ho, rfl, hgroup, hcut⟩, rfl⟩, rfl⟩
  rw [keyCount, cutoffCount, List.countP_eq_length_filter, List.countP_eq_length_filter]
  simpa [entries, outcomes] using hperm.length_eq

theorem ordered_of_keyCount_pos {k : PeerId × List PeerId}
    (h : 0 < keyCount (s.verifierSets cutoff).rows k) : Ordered k.2 ∧ k.2 ≠ [] := by
  obtain ⟨e, he, hkey⟩ := List.countP_pos_iff.mp h
  obtain rfl := of_decide_eq_true hkey
  obtain ⟨hord, hne, -⟩ := mem_verifierSets_iff.mp he
  exact ⟨hord, hne⟩

/-- A set with an outcome has a list in byte order. -/
theorem exists_ordered {V : Finset PeerId} (hV : V.Nonempty) :
    ∃ vs : List PeerId, Ordered vs ∧ vs ≠ [] ∧ vs.toFinset = V := by
  refine ⟨sortByKey PeerId.key V.toList, ?_, ?_, ?_⟩
  · exact pairwise_lt_sortByKey V.nodup_toList fun _ _ _ _ heq => PeerId.key_injective heq
  · obtain ⟨v, hv⟩ := hV
    exact List.ne_nil_of_mem (mem_sortByKey.mpr (Finset.mem_toList.mpr hv))
  · ext v
    rw [List.mem_toFinset, mem_sortByKey, Finset.mem_toList]

/-- The bound of the query. -/
def cutoffOf (now : Int64) (windowSecs : UInt64) : Int :=
  i64SaturatingSub now.toInt windowSecs.toInt64.toInt

section Detect

variable {now : Int64} {windowSecs : UInt64} {minCount : UInt32}

/-- **What is reported.** -/
theorem mem_detect_iff {g : VerifierGroup} :
    g ∈ s.detectRepeatingVerifierSets now windowSecs minCount ↔
      (Ordered g.verifiers ∧ g.verifiers ≠ []) ∧
        0 < cutoffCount s (cutoffOf now windowSecs) g.submitter g.verifiers.toFinset ∧
        g.count = cutoffCount s (cutoffOf now windowSecs) g.submitter g.verifiers.toFinset % 2 ^ 32 ∧
        minCount.toNat ≤ g.count := by
  have hsorted : ∀ k, keyCount (sortByKey (fun e => e.outcomeHash.key)
      (s.verifierSets (cutoffOf now windowSecs)).rows) k =
        keyCount (s.verifierSets (cutoffOf now windowSecs)).rows k :=
    fun k => (sortByKey_perm_self _ _).countP_eq _
  rw [detectRepeatingVerifierSets, List.mem_filter, mem_sortByKey, mem_foldl_countSet,
    decide_eq_true_eq]
  rw [show i64SaturatingSub now.toInt windowSecs.toInt64.toInt = cutoffOf now windowSecs from rfl,
    hsorted]
  constructor
  · rintro ⟨⟨hpos, hcount⟩, hmin⟩
    obtain ⟨hord, hne⟩ := ordered_of_keyCount_pos hpos
    have heq := keyCount_verifierSets s (cutoffOf now windowSecs) g.submitter hord hne
    exact ⟨⟨hord, hne⟩, heq ▸ hpos, heq ▸ hcount, hmin⟩
  · rintro ⟨⟨hord, hne⟩, hpos, hcount, hmin⟩
    have heq := keyCount_verifierSets s (cutoffOf now windowSecs) g.submitter hord hne
    rw [← heq] at hpos hcount
    exact ⟨⟨hpos, hcount⟩, hmin⟩

/-- No count overflows. -/
def CountsFit (s : SharedState) (now : Int64) (windowSecs : UInt64) : Prop :=
  ∀ p V, cutoffCount s (cutoffOf now windowSecs) p V < 2 ^ 32

theorem countsFit_of_length (h : s.outcomes.rows.length < 2 ^ 32) : CountsFit s now windowSecs :=
  fun _ _ => Nat.lt_of_le_of_lt List.countP_le_length h

/-- The query reports the submitters and sets that it should, for every `min_count`. -/
structure DetectExact (s : SharedState) (now : Int64) (windowSecs : UInt64) : Prop where
  distinct : ∀ minCount, ∀ g ∈ s.detectRepeatingVerifierSets now windowSecs minCount,
    g.verifiers.Nodup
  once : ∀ minCount, ((s.detectRepeatingVerifierSets now windowSecs minCount).map
    fun g => (g.submitter, g.verifiers.toFinset)).Nodup
  reported : ∀ minCount p V c,
    (∃ g ∈ s.detectRepeatingVerifierSets now windowSecs minCount,
      g.submitter = p ∧ g.verifiers.toFinset = V ∧ g.count = c) ↔
    V.Nonempty ∧ max minCount.toNat 1 ≤ c ∧ c = windowCount s now windowSecs p V

theorem once_detect (s : SharedState) (now : Int64) (windowSecs : UInt64) (minCount : UInt32) :
    ((s.detectRepeatingVerifierSets now windowSecs minCount).map
      fun g => (g.submitter, g.verifiers.toFinset)).Nodup := by
  have hnodup : (s.detectRepeatingVerifierSets now windowSecs minCount).Nodup :=
    ((sortByKey_perm_self _ _).nodup_iff.mpr (Keyed.rows_nodup _)).filter _
  refine hnodup.map_on fun g hg g' hg' heq => ?_
  obtain ⟨hsub, hset⟩ := Prod.mk.inj heq
  obtain ⟨⟨hord, -⟩, -, hcount, -⟩ := mem_detect_iff.mp hg
  obtain ⟨⟨hord', -⟩, -, hcount', -⟩ := mem_detect_iff.mp hg'
  refine VerifierGroup.ext_key (Prod.ext hsub (hord.eq hord' hset)) ?_
  rw [hcount, hcount', hsub, hset]

/-- Without overflow, a group is reported with its number of outcomes from the bound on. -/
theorem reported_iff (hfit : CountsFit s now windowSecs) (minCount : UInt32) (p : PeerId)
    (V : Finset PeerId) (c : Nat) :
    (∃ g ∈ s.detectRepeatingVerifierSets now windowSecs minCount,
      g.submitter = p ∧ g.verifiers.toFinset = V ∧ g.count = c) ↔
    V.Nonempty ∧ max minCount.toNat 1 ≤ c ∧ c = cutoffCount s (cutoffOf now windowSecs) p V := by
  have hmod := Nat.mod_eq_of_lt (hfit p V)
  constructor
  · rintro ⟨g, hg, rfl, rfl, rfl⟩
    obtain ⟨⟨-, hne⟩, hpos, hcount, hmin⟩ := mem_detect_iff.mp hg
    rw [hmod] at hcount
    refine ⟨List.toFinset_nonempty_iff _ |>.mpr hne, ?_, hcount⟩
    omega
  · rintro ⟨hV, hmin, hcount⟩
    obtain ⟨vs, hord, hne, rfl⟩ := exists_ordered hV
    refine ⟨⟨p, vs, c⟩, mem_detect_iff.mpr ⟨⟨hord, hne⟩, ?_, ?_, ?_⟩, rfl, rfl, rfl⟩
    · change 0 < cutoffCount s (cutoffOf now windowSecs) p vs.toFinset
      omega
    · change c = cutoffCount s (cutoffOf now windowSecs) p vs.toFinset % 2 ^ 32
      rw [hmod, hcount]
    · exact le_trans (le_max_left _ _) hmin

theorem detectExact_iff_counts (hfit : CountsFit s now windowSecs) :
    DetectExact s now windowSecs ↔
      ∀ p V, V.Nonempty →
        cutoffCount s (cutoffOf now windowSecs) p V = windowCount s now windowSecs p V := by
  constructor
  · intro h p V hV
    have hsame : ∀ c, 1 ≤ c → (c = cutoffCount s (cutoffOf now windowSecs) p V ↔
        c = windowCount s now windowSecs p V) := by
      intro c hc
      have hboth := (reported_iff hfit 0 p V c).symm.trans (h.reported 0 p V c)
      simpa [hV, hc] using hboth
    have h₁ := hsame (cutoffCount s (cutoffOf now windowSecs) p V)
    have h₂ := hsame (windowCount s now windowSecs p V)
    omega
  · intro h
    refine ⟨fun _ g hg => (mem_detect_iff.mp hg).1.1.nodup, once_detect s now windowSecs, ?_⟩
    intro m p V c
    rw [reported_iff hfit]
    refine and_congr_right fun hV => ?_
    rw [h p V hV]

/-! ## The bound and the window -/

theorem toInt_finalisedAt (o : OutcomeRow) :
    o.finalisedAt.toInt =
      if finalisedTime o < 2 ^ 63 then (finalisedTime o : Int) else finalisedTime o - 2 ^ 64 := by
  rw [← Int64.toInt64_toUInt64 o.finalisedAt, toInt_toInt64]
  rfl

theorem finalisedTime_lt (o : OutcomeRow) : finalisedTime o < 2 ^ 64 := UInt64.toNat_lt _

/-- Below `2^63`, saturation does not change what the bound selects. -/
theorem cutoffOf_le_iff (hw : windowSecs.toNat < 2 ^ 63) (t : Int64) :
    cutoffOf now windowSecs ≤ t.toInt ↔ now.toInt - windowSecs.toNat ≤ t.toInt := by
  have ht := t.le_toInt
  have hnow := now.toInt_lt
  rw [cutoffOf, toInt_toInt64_of_lt hw, i64SaturatingSub]
  omega

/-- From `2^63` on the cast is negative, and the bound is after `now`. -/
theorem cutoffOf_of_le (hw : 2 ^ 63 ≤ windowSecs.toNat) :
    cutoffOf now windowSecs = min (2 ^ 63 - 1) (now.toInt + 2 ^ 64 - windowSecs.toNat) := by
  have hlt : windowSecs.toNat < 2 ^ 64 := windowSecs.toNat_lt
  have hnow := now.le_toInt
  rw [cutoffOf, toInt_toInt64, if_neg (by omega), i64SaturatingSub]
  omega

theorem inWindow_iff (hw : windowSecs.toNat < 2 ^ 63) (o : OutcomeRow) :
    InWindow now windowSecs o ↔
      cutoffOf now windowSecs ≤ o.finalisedAt.toInt ∧ finalisedTime o ≤ now.toInt := by
  have hnow := now.toInt_lt
  have htime := finalisedTime_lt o
  rw [cutoffOf_le_iff hw, InWindow, toInt_finalisedAt]
  split <;> omega

theorem inWindow_of_le (hw : 2 ^ 63 ≤ windowSecs.toNat) (o : OutcomeRow) :
    InWindow now windowSecs o ↔ finalisedTime o ≤ now.toInt := by
  have hnow := now.toInt_lt
  rw [InWindow]
  omega

/-- The bound selects the outcomes of the window.  Below `2^63` this is a matter of
single outcomes; from there on only the counts can agree. -/
def WindowMet (s : SharedState) (now : Int64) (windowSecs : UInt64) : Prop :=
  if windowSecs.toNat < 2 ^ 63 then
    ∀ o ∈ s.outcomes.rows, o.verdict = .valid → (s.agreedSet o.resultHash).Nonempty →
      now.toInt - windowSecs.toNat ≤ o.finalisedAt.toInt → finalisedTime o ≤ now.toInt
  else
    ∀ p V, V.Nonempty →
      s.outcomes.rows.countP (fun o => OfGroup s p V o ∧
        min (2 ^ 63 - 1) (now.toInt + 2 ^ 64 - windowSecs.toNat) ≤ o.finalisedAt.toInt) =
      s.outcomes.rows.countP (fun o => OfGroup s p V o ∧ finalisedTime o ≤ now.toInt)

theorem countP_and_eq_iff {R : Type} (l : List R) (P Q : R → Prop) [DecidablePred P]
    [DecidablePred Q] :
    l.countP (fun r => P r) = l.countP (fun r => P r ∧ Q r) ↔ ∀ r ∈ l, P r → Q r := by
  have hboth : l.countP (fun r => P r ∧ Q r) = (l.filter fun r => P r).countP fun r => Q r := by
    rw [List.countP_filter]
    refine List.countP_congr fun r _ => ?_
    simp [and_comm]
  rw [hboth, List.countP_eq_length_filter, eq_comm, List.countP_eq_length]
  simp

theorem counts_eq_iff_windowMet :
    (∀ p V, V.Nonempty →
      cutoffCount s (cutoffOf now windowSecs) p V = windowCount s now windowSecs p V) ↔
        WindowMet s now windowSecs := by
  by_cases hw : windowSecs.toNat < 2 ^ 63
  · have hcount : ∀ p V, cutoffCount s (cutoffOf now windowSecs) p V =
        windowCount s now windowSecs p V ↔ ∀ o ∈ s.outcomes.rows,
          OfGroup s p V o ∧ cutoffOf now windowSecs ≤ o.finalisedAt.toInt →
            finalisedTime o ≤ now.toInt := by
      intro p V
      rw [← countP_and_eq_iff, cutoffCount, windowCount]
      simp only [inWindow_iff hw, and_assoc]
    rw [WindowMet, if_pos hw]
    simp only [hcount, cutoffOf_le_iff hw]
    constructor
    · intro h o ho hvalid hV hcut
      obtain ⟨p, hp⟩ := exists_submitterOf ho
      exact h p _ hV o ho ⟨⟨hvalid, hp, rfl⟩, hcut⟩
    · rintro h p V hV o ho ⟨⟨hvalid, -, rfl⟩, hcut⟩
      exact h o ho hvalid hV hcut
  · rw [WindowMet, if_neg hw]
    simp only [cutoffCount, windowCount, cutoffOf_of_le (Nat.not_lt.mp hw),
      inWindow_of_le (Nat.not_lt.mp hw)]

/-- **When the query reports what it should.** -/
theorem detectExact_iff (hfit : CountsFit s now windowSecs) :
    DetectExact s now windowSecs ↔ WindowMet s now windowSecs :=
  (detectExact_iff_counts hfit).trans counts_eq_iff_windowMet

/-! ## Larger windows -/

/-- Every group is still there, with at least its count. -/
def Enlarged (groups groups' : List VerifierGroup) : Prop :=
  ∀ g ∈ groups, ∃ g' ∈ groups', g'.key = g.key ∧ g.count ≤ g'.count

theorem enlarged_of_counts {windowSecs' : UInt64} (hfit : CountsFit s now windowSecs')
    (hle : ∀ p V, V.Nonempty → cutoffCount s (cutoffOf now windowSecs) p V ≤
      cutoffCount s (cutoffOf now windowSecs') p V) (minCount : UInt32) :
    Enlarged (s.detectRepeatingVerifierSets now windowSecs minCount)
      (s.detectRepeatingVerifierSets now windowSecs' minCount) := by
  intro g hg
  obtain ⟨⟨hord, hne⟩, hpos, hcount, hmin⟩ := mem_detect_iff.mp hg
  have hgrow := hle g.submitter _ (List.toFinset_nonempty_iff g.verifiers |>.mpr hne)
  have hmod := Nat.mod_le
    (cutoffCount s (cutoffOf now windowSecs) g.submitter g.verifiers.toFinset) (2 ^ 32)
  refine ⟨⟨g.submitter, g.verifiers,
    cutoffCount s (cutoffOf now windowSecs') g.submitter g.verifiers.toFinset⟩,
    mem_detect_iff.mpr ⟨⟨hord, hne⟩, ?_, ?_, ?_⟩, rfl, ?_⟩
  · exact lt_of_lt_of_le hpos hgrow
  · exact (Nat.mod_eq_of_lt (hfit _ _)).symm
  · change minCount.toNat ≤ cutoffCount s (cutoffOf now windowSecs') g.submitter
      g.verifiers.toFinset
    omega
  · change g.count ≤ cutoffCount s (cutoffOf now windowSecs') g.submitter g.verifiers.toFinset
    omega

theorem cutoffCount_mono {windowSecs' : UInt64} (hle : windowSecs ≤ windowSecs')
    (hw : windowSecs'.toNat < 2 ^ 63) (p : PeerId) (V : Finset PeerId) :
    cutoffCount s (cutoffOf now windowSecs) p V ≤ cutoffCount s (cutoffOf now windowSecs') p V := by
  have hnat := UInt64.le_iff_toNat_le.mp hle
  refine List.countP_mono_left fun o _ h => ?_
  simp only [decide_eq_true_eq] at h ⊢
  rw [cutoffOf_le_iff (by omega)] at h
  rw [cutoffOf_le_iff hw]
  obtain ⟨hgroup, hfrom⟩ := h
  exact ⟨hgroup, by omega⟩

theorem windowCount_mono {windowSecs' : UInt64} (hle : windowSecs ≤ windowSecs') (p : PeerId)
    (V : Finset PeerId) :
    windowCount s now windowSecs p V ≤ windowCount s now windowSecs' p V := by
  have hnat := UInt64.le_iff_toNat_le.mp hle
  refine List.countP_mono_left fun o _ h => ?_
  simp only [decide_eq_true_eq] at h ⊢
  obtain ⟨hgroup, hfrom, hto⟩ := h
  exact ⟨hgroup, by omega, hto⟩

theorem enlarged_of_le {windowSecs' : UInt64} (hle : windowSecs ≤ windowSecs')
    (hfit : CountsFit s now windowSecs')
    (hmet : windowSecs'.toNat < 2 ^ 63 ∨
      WindowMet s now windowSecs ∧ WindowMet s now windowSecs') (minCount : UInt32) :
    Enlarged (s.detectRepeatingVerifierSets now windowSecs minCount)
      (s.detectRepeatingVerifierSets now windowSecs' minCount) := by
  refine enlarged_of_counts hfit (fun p V hV => ?_) minCount
  rcases hmet with hw | ⟨hmet, hmet'⟩
  · exact cutoffCount_mono hle hw p V
  · rw [counts_eq_iff_windowMet.mpr hmet p V hV, counts_eq_iff_windowMet.mpr hmet' p V hV]
    exact windowCount_mono hle p V

theorem mem_detect_of_le {minCount' : UInt32} (hle : minCount ≤ minCount') {g : VerifierGroup}
    (h : g ∈ s.detectRepeatingVerifierSets now windowSecs minCount') :
    g ∈ s.detectRepeatingVerifierSets now windowSecs minCount := by
  obtain ⟨hord, hpos, hcount, hmin⟩ := mem_detect_iff.mp h
  exact mem_detect_iff.mpr ⟨hord, hpos, hcount, le_trans (UInt32.le_iff_toNat_le.mp hle) hmin⟩

end Detect

/-- **Collusion detection.**  While no count overflows, the query reports what it should
exactly when, for a window below `2^63` seconds, no `Valid` outcome with an agreeing
vote that the bound selects was finalised after `now`; a longer window has its bound
after `now` and is right only where the counts happen to agree.  Raising `min_count`
never adds a group; enlarging a window removes none below `2^63`, or between two windows
that are right. -/
theorem collusion_detected_iff (s : SharedState) (now : Int64) :
    (∀ windowSecs, CountsFit s now windowSecs →
      (DetectExact s now windowSecs ↔ WindowMet s now windowSecs)) ∧
    (∀ windowSecs minCount minCount', minCount ≤ minCount' →
      ∀ g ∈ s.detectRepeatingVerifierSets now windowSecs minCount',
        g ∈ s.detectRepeatingVerifierSets now windowSecs minCount) ∧
    ∀ windowSecs windowSecs', windowSecs ≤ windowSecs' → CountsFit s now windowSecs' →
      (windowSecs'.toNat < 2 ^ 63 ∨ WindowMet s now windowSecs ∧ WindowMet s now windowSecs') →
      ∀ minCount, Enlarged (s.detectRepeatingVerifierSets now windowSecs minCount)
        (s.detectRepeatingVerifierSets now windowSecs' minCount) :=
  ⟨fun _ hfit => detectExact_iff hfit, fun _ _ _ hle _ hg => mem_detect_of_le hle hg,
    fun _ _ hle hfit hmet minCount => enlarged_of_le hle hfit hmet minCount⟩

/-- A store with one `Valid` outcome, finalised at 5, and an agreeing vote on it. -/
def oneRing : SharedState :=
  run (write (.small false [] [11] [])) .empty (syncedLast ++ [agreedCall])

/-- At 10 the outcome is in the past. -/
theorem past_outcome_detected :
    CountsFit oneRing 10 100 ∧ WindowMet oneRing 10 100 ∧ DetectExact oneRing 10 100 ∧
      oneRing.detectRepeatingVerifierSets 10 100 1 = [⟨peerOf 2, [peerOf 11], 1⟩] := by
  have hfit : CountsFit oneRing 10 100 := countsFit_of_length (by decide +kernel)
  have hmet : WindowMet oneRing 10 100 := by
    rw [WindowMet, if_pos (by decide)]
    decide +kernel
  exact ⟨hfit, hmet, ((collusion_detected_iff oneRing 10).1 100 hfit).mpr hmet, by decide +kernel⟩

/-- At 3 the outcome is in the future and is reported; at 10 a window of `2^64 - 1`
seconds does not report it. -/
theorem future_outcome_detected :
    oneRing.detectRepeatingVerifierSets 3 100 1 = [⟨peerOf 2, [peerOf 11], 1⟩] ∧
      windowCount oneRing 3 100 (peerOf 2) {peerOf 11} = 0 ∧
      ¬ DetectExact oneRing 3 100 ∧
      oneRing.detectRepeatingVerifierSets 10 (2 ^ 64 - 1) 1 = [] ∧
      windowCount oneRing 10 (2 ^ 64 - 1) (peerOf 2) {peerOf 11} = 1 ∧
      ¬ DetectExact oneRing 10 (2 ^ 64 - 1) := by
  have hfuture : oneRing.detectRepeatingVerifierSets 3 100 1 = [⟨peerOf 2, [peerOf 11], 1⟩] := by
    decide +kernel
  have hnone : windowCount oneRing 3 100 (peerOf 2) {peerOf 11} = 0 := by decide +kernel
  have hlost : oneRing.detectRepeatingVerifierSets 10 (2 ^ 64 - 1) 1 = [] := by decide +kernel
  have hone : windowCount oneRing 10 (2 ^ 64 - 1) (peerOf 2) {peerOf 11} = 1 := by
    decide +kernel
  refine ⟨hfuture, hnone, fun h => ?_, hlost, hone, fun h => ?_⟩
  · have hcount := ((h.reported 1 (peerOf 2) {peerOf 11} 1).mp
      ⟨⟨peerOf 2, [peerOf 11], 1⟩, by rw [hfuture]; simp, rfl, rfl, rfl⟩).2.2
    rw [hnone] at hcount
    cases hcount
  · obtain ⟨g, hg, -⟩ := (h.reported 1 (peerOf 2) {peerOf 11} 1).mpr
      ⟨Finset.singleton_nonempty _, by decide, hone.symm⟩
    rw [hlost] at hg
    cases hg

end Parseh.Shared.SharedState
