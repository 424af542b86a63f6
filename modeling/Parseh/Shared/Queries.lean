import Mathlib.Data.Finset.Basic
import Mathlib.Data.Prod.Lex
import Parseh.Shared.Writers

/-!
# The queries over the tables (`parseh-shared-state`, `store.rs`)

`recent_tasks`, `outcomes_since` and `detect_repeating_verifier_sets`.  The first
two decode the stored bodies and fail as a whole on one that does not decode; a
timestamp and the bound it is compared with are the same `u64` cast to `i64`.

* `recentTasks_eq_ok_iff` and `outcomesSince_eq_ok_iff` read a query back as the
  decoded rows;
* `setOf_foldl`: `per_outcome` has an entry for each outcome of the join, with its
  verifiers in byte order;
* `verifierSet_origin`: a verifier set is attributed to the submitter of the task
  row its outcome references.
-/

namespace Parseh.Shared.SharedState

open Parseh.Lib Parseh.Wire

variable {W : Type} (x : Externals W)

/-! ## Tasks and outcomes -/

/-- The task rows from `sinceUnix` on, by `submitted_at`. -/
def recentTaskRows (s : SharedState) (sinceUnix : UInt64) : List TaskRow :=
  sortByKey (fun t => t.submittedAt.toInt)
    (s.tasks.rows.filter fun t => sinceUnix.toInt64.toInt ≤ t.submittedAt.toInt)

/-- `recent_tasks`. -/
def recentTasks (s : SharedState) (sinceUnix : UInt64) : Except StoreError (List JobSpec) :=
  (s.recentTaskRows sinceUnix).mapM fun t =>
    okOr (x.specCbor.decode t.specCbor) (.cborDecode "spec_cbor")

/-- `ORDER BY finalised_at DESC, outcome_hash ASC`. -/
def outcomeOrder (r : OutcomeRow) : Int ×ₗ List Nat :=
  toLex (-r.finalisedAt.toInt, r.outcomeHash.key)

/-- The outcome rows from `sinceUnix` on, newest first. -/
def outcomeRowsSince (s : SharedState) (sinceUnix : UInt64) : List OutcomeRow :=
  sortByKey outcomeOrder
    (s.outcomes.rows.filter fun r => sinceUnix.toInt64.toInt ≤ r.finalisedAt.toInt)

/-- `LIMIT`; a negative one means none. -/
def sqlLimit {R : Type} (limit : UInt64) (rows : List R) : List R :=
  if limit.toInt64.toInt < 0 then rows else rows.take limit.toInt64.toInt.toNat

/-- `outcomes_since`. -/
def outcomesSince (s : SharedState) (sinceUnix limit : UInt64) :
    Except StoreError (List (JobOutcome W)) :=
  (sqlLimit limit (s.outcomeRowsSince sinceUnix)).mapM fun r =>
    okOr (x.outcomeCbor.decode r.outcomeCbor) (.cborDecode "outcome_cbor")

variable {x} {s : SharedState}

theorem mem_recentTaskRows {sinceUnix : UInt64} {t : TaskRow} :
    t ∈ s.recentTaskRows sinceUnix ↔
      t ∈ s.tasks.rows ∧ sinceUnix.toInt64.toInt ≤ t.submittedAt.toInt := by
  simp [recentTaskRows, mem_sortByKey]

theorem recentTasks_eq_ok_iff {sinceUnix : UInt64} {specs : List JobSpec} :
    s.recentTasks x sinceUnix = .ok specs ↔
      (s.recentTaskRows sinceUnix).map (fun t => x.specCbor.decode t.specCbor) =
        specs.map some :=
  mapM_okOr_eq_ok_iff ..

theorem outcomesSince_eq_ok_iff {sinceUnix limit : UInt64} {os : List (JobOutcome W)} :
    s.outcomesSince x sinceUnix limit = .ok os ↔
      (sqlLimit limit (s.outcomeRowsSince sinceUnix)).map
        (fun r => x.outcomeCbor.decode r.outcomeCbor) = os.map some :=
  mapM_okOr_eq_ok_iff ..

theorem mem_outcomeRowsSince {sinceUnix : UInt64} {r : OutcomeRow} :
    r ∈ s.outcomeRowsSince sinceUnix ↔
      r ∈ s.outcomes.rows ∧ sinceUnix.toInt64.toInt ≤ r.finalisedAt.toInt := by
  simp [outcomeRowsSince, mem_sortByKey]

theorem sqlLimit_subset {R : Type} {limit : UInt64} (rows : List R) :
    sqlLimit limit rows ⊆ rows := by
  unfold sqlLimit
  split
  · exact List.Subset.refl _
  · exact List.take_subset _ _

theorem sqlLimit_ofNat {R : Type} {n : Nat} (h : n < 2 ^ 63) (rows : List R) :
    sqlLimit (UInt64.ofNat n) rows = rows.take n := by
  have hn : (UInt64.ofNat n).toNat = n :=
    UInt64.toNat_ofNat_of_lt (Nat.lt_trans h (by decide))
  have hcast : (UInt64.ofNat n).toInt64.toInt = n := by
    rw [toInt_toInt64_of_lt (by omega), hn]
  rw [sqlLimit, hcast, if_neg (by omega), Int.toNat_natCast]

/-- A query for one row more than `n` gives the first `n` bodies decoded. -/
theorem take_outcomesSince {sinceUnix : UInt64} {n : Nat} (hn : n + 1 < 2 ^ 63)
    {os : List (JobOutcome W)} (h : s.outcomesSince x sinceUnix (UInt64.ofNat (n + 1)) = .ok os) :
    ((s.outcomeRowsSince sinceUnix).take n).map (fun r => x.outcomeCbor.decode r.outcomeCbor) =
      (os.take n).map some := by
  rw [outcomesSince_eq_ok_iff, sqlLimit_ofNat hn] at h
  have htake := congrArg (List.take n) h
  rw [← List.map_take, ← List.map_take, List.take_take, Nat.min_eq_left (Nat.le_succ n)] at htake
  exact htake

/-- The rows of a window are strictly ordered. -/
theorem pairwise_outcomeRowsSince (s : SharedState) (sinceUnix : UInt64) :
    (s.outcomeRowsSince sinceUnix).Pairwise fun a b => outcomeOrder a < outcomeOrder b := by
  refine pairwise_lt_sortByKey ((Keyed.rows_nodup s.outcomes).filter _) ?_
  intro a ha b hb heq
  refine s.outcomes.eq_of_key_eq (List.mem_filter.mp ha).1 (List.mem_filter.mp hb).1 ?_
  exact ContentHash.key_injective (congrArg (fun k => (ofLex k).2) heq)

/-- The newest rows of a window are those with few rows of the whole table
before them. -/
theorem mem_take_outcomeRowsSince {sinceUnix : UInt64} {n : Nat} {row : OutcomeRow} :
    row ∈ (s.outcomeRowsSince sinceUnix).take n ↔
      (row ∈ s.outcomes.rows ∧ sinceUnix.toInt64.toInt ≤ row.finalisedAt.toInt) ∧
        s.outcomes.rows.countP (fun r => outcomeOrder r < outcomeOrder row) < n := by
  rw [mem_take_iff_countP (pairwise_outcomeRowsSince s sinceUnix), mem_outcomeRowsSince]
  refine and_congr_right fun hrow => ?_
  -- a row before this one is at least as new, so it is in the window too
  have hcount : (s.outcomeRowsSince sinceUnix).countP
      (fun r => outcomeOrder r < outcomeOrder row) =
      s.outcomes.rows.countP (fun r => outcomeOrder r < outcomeOrder row) := by
    rw [outcomeRowsSince, (sortByKey_perm_self _ _).countP_eq, List.countP_filter]
    refine List.countP_congr fun r _ => ?_
    simp only [Bool.and_eq_true, decide_eq_true_eq, and_iff_left_iff_imp]
    intro hlt
    have hle := Prod.Lex.monotone_fst _ _ hlt.le
    simp only [outcomeOrder, ofLex_toLex] at hle
    omega
  rw [hcount]

/-! ### The outcomes of a run -/

/-- A row of the store has the outcome as its body. -/
def HoldsOutcome (x : Externals W) (s : SharedState) (o : JobOutcome W) : Prop :=
  ∃ row ∈ s.outcomes.rows, x.outcomeCbor.decode row.outcomeCbor = some o

section Bodies

variable {calls : List (Call W)}
  (hround : ∀ call ∈ calls, ∀ o, call.Carries o →
    x.outcomeCbor.decode (x.outcomeCbor.encode o) = some o)
include hround

/-- A stored body decodes, and to the outcome its row is of. -/
theorem decode_outcomeRow {row : OutcomeRow}
    (hrow : row ∈ (run (write x) .empty calls).outcomes.rows) :
    ∃ o now, row = outcomeRow x o now ∧ x.outcomeCbor.decode row.outcomeCbor = some o := by
  obtain ⟨call, hcall, o, hcar, rfl⟩ := outcomeRow_origin hrow
  exact ⟨o, call.now, rfl, hround call hcall o hcar⟩

theorem isSome_decode {row : OutcomeRow}
    (hrow : row ∈ (run (write x) .empty calls).outcomes.rows) :
    (x.outcomeCbor.decode row.outcomeCbor).isSome = true := by
  obtain ⟨o, now, -, hdec⟩ := decode_outcomeRow hround hrow
  rw [hdec]
  rfl

/-- So the query does not fail. -/
theorem outcomesSince_ok (sinceUnix limit : UInt64) :
    (run (write x) .empty calls).outcomesSince x sinceUnix limit =
      .ok ((sqlLimit limit ((run (write x) .empty calls).outcomeRowsSince sinceUnix)).filterMap
        fun r => x.outcomeCbor.decode r.outcomeCbor) := by
  refine mapM_okOr_of_isSome (fun r hr => ?_) _
  exact isSome_decode hround (mem_outcomeRowsSince.mp (sqlLimit_subset _ hr)).1

/-- The row that holds an outcome is the row of that outcome. -/
theorem eq_outcomeRow_of_decode {row : OutcomeRow}
    (hrow : row ∈ (run (write x) .empty calls).outcomes.rows) {o : JobOutcome W}
    (hdec : x.outcomeCbor.decode row.outcomeCbor = some o) :
    ∃ now, row = outcomeRow x o now := by
  obtain ⟨o', now, heq, hdec'⟩ := decode_outcomeRow hround hrow
  have hoo : o' = o := Option.some.inj (hdec'.symm.trans hdec)
  exact ⟨now, hoo ▸ heq⟩

/-- A window decoded: its outcomes, each once, in the order of their rows. -/
theorem exists_decoded (sinceUnix : UInt64) : ∃ all : List (JobOutcome W),
    ((run (write x) .empty calls).outcomeRowsSince sinceUnix).map
      (fun r => x.outcomeCbor.decode r.outcomeCbor) = all.map some ∧
    (∀ o, o ∈ all ↔ HoldsOutcome x (run (write x) .empty calls) o ∧
      sinceUnix.toInt64.toInt ≤ o.finalisedAt.toInt64.toInt) ∧
    all.Pairwise fun a b => toLex (-a.finalisedAt.toInt64.toInt, (a.contentHash x).key) <
      toLex (-b.finalisedAt.toInt64.toInt, (b.contentHash x).key) := by
  let s := run (write x) .empty calls
  let decode := fun r : OutcomeRow => x.outcomeCbor.decode r.outcomeCbor
  have hsome : ∀ r ∈ s.outcomeRowsSince sinceUnix, (decode r).isSome = true :=
    fun r hr => isSome_decode hround (mem_outcomeRowsSince.mp hr).1
  refine ⟨(s.outcomeRowsSince sinceUnix).filterMap decode,
    (mapM_okOr_eq_ok_iff _ fkError _ _).mp (mapM_okOr_of_isSome hsome _), fun o => ?_, ?_⟩
  · rw [List.mem_filterMap]
    constructor
    · rintro ⟨r, hr, hdec⟩
      obtain ⟨hrow, hle⟩ := mem_outcomeRowsSince.mp hr
      obtain ⟨now, rfl⟩ := eq_outcomeRow_of_decode hround hrow hdec
      exact ⟨⟨_, hrow, hdec⟩, hle⟩
    · rintro ⟨⟨r, hrow, hdec⟩, hle⟩
      obtain ⟨now, rfl⟩ := eq_outcomeRow_of_decode hround hrow hdec
      exact ⟨_, mem_outcomeRowsSince.mpr ⟨hrow, hle⟩, hdec⟩
  · rw [List.pairwise_filterMap]
    refine (pairwise_outcomeRowsSince s sinceUnix).imp_of_mem fun ha hb hab o ho o' ho' => ?_
    obtain ⟨now, rfl⟩ := eq_outcomeRow_of_decode hround (mem_outcomeRowsSince.mp ha).1 ho
    obtain ⟨now', rfl⟩ := eq_outcomeRow_of_decode hround (mem_outcomeRowsSince.mp hb).1 ho'
    exact hab

end Bodies

/-! ## Repeating verifier sets -/

/-- `i64::saturating_sub`. -/
def i64SaturatingSub (a b : Int) : Int := max (-(2 ^ 63)) (min (2 ^ 63 - 1) (a - b))

/-- The join of the detection query: the submitter, the outcome and an agreeing
verifier, for the `Valid` outcomes from `cutoff` on. -/
def agreedJoin (s : SharedState) (cutoff : Int) : List (PeerId × ContentHash × PeerId) :=
  (s.outcomes.rows.filter fun o => o.verdict = .valid ∧ cutoff ≤ o.finalisedAt.toInt).flatMap
    fun o => (s.tasks.rows.filter (·.specHash = o.specHash)).flatMap
      fun t => (s.results.rows.filter (·.resultHash = o.resultHash)).flatMap
        fun r => (s.verifications.rows.filter
          fun v => v.resultHash = r.resultHash ∧ v.verdict = .agreed).map
            fun v => (t.submitter, o.outcomeHash, v.verifier)

/-- One entry of `per_outcome`; the set of verifiers is kept in byte order. -/
structure VerifierSet where
  outcomeHash : ContentHash
  submitter : PeerId
  verifiers : List PeerId

def VerifierSet.insert (e : VerifierSet) (p : PeerId) : VerifierSet :=
  { e with verifiers :=
      if p ∈ e.verifiers then e.verifiers else sortByKey PeerId.key (p :: e.verifiers) }

/-- `per_outcome.entry(outcome_hash).or_insert_with(..).1.insert(verifier)`. -/
def addJoined (m : Keyed VerifierSet.outcomeHash) (row : PeerId × ContentHash × PeerId) :
    Keyed VerifierSet.outcomeHash :=
  if m.contains row.2.1 then
    m.mapRows (fun e => if e.outcomeHash = row.2.1 then e.insert row.2.2 else e)
      (by intro e; split <;> rfl)
  else m.insertOrIgnore ⟨row.2.1, row.1, [row.2.2]⟩

/-- `per_outcome`. -/
def verifierSets (s : SharedState) (cutoff : Int) : Keyed VerifierSet.outcomeHash :=
  (s.agreedJoin cutoff).foldl addJoined Keyed.empty

/-- One entry of `groups`. -/
structure VerifierGroup where
  submitter : PeerId
  verifiers : List PeerId
  count : Nat
  deriving DecidableEq

def VerifierGroup.key (g : VerifierGroup) : PeerId × List PeerId := (g.submitter, g.verifiers)

/-- `*groups.entry(..).or_insert(0) += 1`; the count is a `u32`, which wraps. -/
def countSet (m : Keyed VerifierGroup.key) (e : VerifierSet) : Keyed VerifierGroup.key :=
  if m.contains (e.submitter, e.verifiers) then
    m.mapRows (fun g => if g.key = (e.submitter, e.verifiers) then
      { g with count := (g.count + 1) % 2 ^ 32 } else g) (by intro g; split <;> rfl)
  else m.insertOrIgnore ⟨e.submitter, e.verifiers, 1⟩

/-- The order of the keys of `groups`. -/
def groupOrder (g : VerifierGroup) : List Nat ×ₗ List (List Nat) :=
  toLex (g.submitter.key, g.verifiers.map PeerId.key)

/-- `detect_repeating_verifier_sets` at the time `now`. -/
def detectRepeatingVerifierSets (s : SharedState) (now : Int64) (windowSecs : UInt64)
    (minCount : UInt32) : List VerifierGroup :=
  let cutoff := i64SaturatingSub now.toInt windowSecs.toInt64.toInt
  let perOutcome := sortByKey (fun e => e.outcomeHash.key) (s.verifierSets cutoff).rows
  let groups := perOutcome.foldl countSet Keyed.empty
  (sortByKey groupOrder groups.rows).filter fun g => minCount.toNat ≤ g.count

/-! ### The entries of the join -/

/-- The verifiers that agreed with a result. -/
def agreedSet (s : SharedState) (resultHash : ContentHash) : Finset PeerId :=
  ((s.verifications.rows.filter fun v => v.resultHash = resultHash ∧ v.verdict = .agreed).map
    VerificationRow.verifier).toFinset

/-- The submitter of a task. -/
def submitterOf (s : SharedState) (specHash : ContentHash) : Option PeerId :=
  (s.tasks.find? specHash).map TaskRow.submitter

variable {cutoff : Int}

theorem mem_agreedSet {resultHash : ContentHash} {p : PeerId} :
    p ∈ s.agreedSet resultHash ↔
      ∃ v ∈ s.verifications.rows, v.resultHash = resultHash ∧ v.verdict = .agreed ∧
        v.verifier = p := by
  simp [agreedSet, and_assoc]

/-- The joined rows: one for each outcome and each agreeing vote on its result. -/
theorem mem_agreedJoin_iff {p v : PeerId} {h : ContentHash} :
    (p, h, v) ∈ s.agreedJoin cutoff ↔
      ∃ o ∈ s.outcomes.rows, o.outcomeHash = h ∧ o.verdict = .valid ∧
        cutoff ≤ o.finalisedAt.toInt ∧ s.submitterOf o.specHash = some p ∧
        v ∈ s.agreedSet o.resultHash := by
  simp only [agreedJoin, List.mem_flatMap, List.mem_map, List.mem_filter, decide_eq_true_eq,
    Prod.mk.injEq, mem_agreedSet, submitterOf, Option.map_eq_some_iff, Keyed.find?_eq_some_iff]
  constructor
  · rintro ⟨o, ⟨ho, hvalid, hcut⟩, t, ⟨ht, hspec⟩, r, ⟨-, hres⟩, w, ⟨hw, hwr, hagr⟩, hp, hh, hv⟩
    exact ⟨o, ho, hh, hvalid, hcut, ⟨t, ⟨ht, hspec⟩, hp⟩, w, hw, hwr.trans hres, hagr, hv⟩
  · rintro ⟨o, ho, hh, hvalid, hcut, ⟨t, ⟨ht, hspec⟩, hp⟩, w, hw, hwr, hagr, hv⟩
    obtain ⟨r, hr, hres⟩ := (references s).outcomeResult o ho
    exact ⟨o, ⟨ho, hvalid, hcut⟩, t, ⟨ht, hspec⟩, r, ⟨hr, hres⟩, w,
      ⟨hw, hwr.trans hres.symm, hagr⟩, hp, hh, hv⟩

/-- The verifiers of an entry stand in byte order, each once. -/
def Ordered (ps : List PeerId) : Prop := ps.Pairwise fun p q => p.key < q.key

theorem Ordered.nodup {ps : List PeerId} (h : Ordered ps) : ps.Nodup := nodup_of_pairwise_lt h

/-- A list in byte order is determined by its members. -/
theorem Ordered.eq {ps qs : List PeerId} (hp : Ordered ps) (hq : Ordered qs)
    (h : ps.toFinset = qs.toFinset) : ps = qs := by
  have hperm : ps.Perm qs := by
    rw [List.perm_ext_iff_of_nodup hp.nodup hq.nodup]
    intro p
    rw [← List.mem_toFinset, h, List.mem_toFinset]
  exact hperm.eq_of_pairwise (fun _ _ _ _ hab hba => absurd hab (not_lt.mpr hba.le)) hp hq

theorem VerifierSet.mem_insert {e : VerifierSet} {p q : PeerId} :
    q ∈ (e.insert p).verifiers ↔ q = p ∨ q ∈ e.verifiers := by
  unfold VerifierSet.insert
  split
  · next hmem =>
    constructor
    · exact Or.inr
    · rintro (rfl | h)
      · exact hmem
      · exact h
  · rw [mem_sortByKey, List.mem_cons]

theorem VerifierSet.ordered_insert {e : VerifierSet} (h : Ordered e.verifiers) (p : PeerId) :
    Ordered (e.insert p).verifiers := by
  unfold VerifierSet.insert
  split
  · exact h
  · next hmem =>
    refine pairwise_lt_sortByKey (List.nodup_cons.mpr ⟨hmem, h.nodup⟩) ?_
    exact fun _ _ _ _ heq => PeerId.key_injective heq

/-- What an entry says about the joined rows. -/
structure SetOf (rows : List (PeerId × ContentHash × PeerId)) (e : VerifierSet) : Prop where
  ordered : Ordered e.verifiers
  nonempty : e.verifiers ≠ []
  submitter : ∃ v, (e.submitter, e.outcomeHash, v) ∈ rows
  verifiers : ∀ v, v ∈ e.verifiers ↔ ∃ p, (p, e.outcomeHash, v) ∈ rows

section Joined

variable {rows : List (PeerId × ContentHash × PeerId)} {m : Keyed VerifierSet.outcomeHash}
  {e : VerifierSet}

/-- A row of another outcome says nothing about the entry. -/
theorem SetOf.append_other (h : SetOf rows e) {row : PeerId × ContentHash × PeerId}
    (hne : row.2.1 ≠ e.outcomeHash) : SetOf (rows ++ [row]) e := by
  obtain ⟨w, hw⟩ := h.submitter
  refine ⟨h.ordered, h.nonempty, ⟨w, List.mem_append_left _ hw⟩, fun v => ?_⟩
  rw [h.verifiers v]
  constructor
  · rintro ⟨p, hp⟩
    exact ⟨p, List.mem_append_left _ hp⟩
  · rintro ⟨p, hp⟩
    rcases List.mem_append.mp hp with hp | hp
    · exact ⟨p, hp⟩
    · obtain rfl := List.mem_singleton.mp hp
      exact absurd rfl hne

theorem SetOf.append_own (h : SetOf rows e) (p v : PeerId) :
    SetOf (rows ++ [(p, e.outcomeHash, v)]) (e.insert v) := by
  obtain ⟨w, hw⟩ := h.submitter
  refine ⟨VerifierSet.ordered_insert h.ordered v, ?_, ⟨w, List.mem_append_left _ hw⟩, fun u => ?_⟩
  · exact List.ne_nil_of_mem (VerifierSet.mem_insert.mpr (Or.inl rfl))
  · rw [VerifierSet.mem_insert, h.verifiers u]
    constructor
    · rintro (rfl | ⟨q, hq⟩)
      · exact ⟨p, List.mem_append_right _ (List.mem_singleton.mpr rfl)⟩
      · exact ⟨q, List.mem_append_left _ hq⟩
    · rintro ⟨q, hq⟩
      rcases List.mem_append.mp hq with hq | hq
      · exact Or.inr ⟨q, hq⟩
      · cases List.mem_singleton.mp hq
        exact Or.inl rfl

theorem SetOf.single {p v : PeerId} {h : ContentHash} (hno : ∀ row ∈ rows, row.2.1 ≠ h) :
    SetOf (rows ++ [(p, h, v)]) ⟨h, p, [v]⟩ := by
  refine ⟨List.pairwise_singleton .., List.cons_ne_nil _ _, ⟨v, by simp⟩, fun u => ?_⟩
  rw [List.mem_singleton]
  constructor
  · rintro rfl
    exact ⟨p, by simp⟩
  · rintro ⟨q, hq⟩
    rcases List.mem_append.mp hq with hq | hq
    · exact absurd rfl (hno _ hq)
    · cases List.mem_singleton.mp hq
      rfl

theorem contains_addJoined {row : PeerId × ContentHash × PeerId} {h : ContentHash} :
    (addJoined m row).contains h = true ↔ m.contains h = true ∨ row.2.1 = h := by
  unfold addJoined
  split
  · next hin =>
    rw [Keyed.contains_mapRows]
    constructor
    · exact Or.inl
    · rintro (h' | rfl)
      · exact h'
      · exact hin
  · rw [Keyed.contains_insertOrIgnore]

/-- **The entries of the fold.** -/
theorem setOf_foldl (rows : List (PeerId × ContentHash × PeerId)) :
    (∀ e ∈ (rows.foldl addJoined Keyed.empty).rows, SetOf rows e) ∧
      ∀ h, (rows.foldl addJoined Keyed.empty).contains h = true ↔ ∃ row ∈ rows, row.2.1 = h := by
  induction rows using List.reverseRecOn with
  | nil => simp
  | append_singleton rows row ih =>
    obtain ⟨hsets, hkeys⟩ := ih
    rw [List.foldl_append, List.foldl_cons, List.foldl_nil]
    refine ⟨fun e he => ?_, fun h => ?_⟩
    · unfold addJoined at he
      split at he
      · rw [Keyed.rows_mapRows] at he
        obtain ⟨e₀, he₀, rfl⟩ := List.mem_map.mp he
        split
        · next hown =>
          obtain ⟨p, h, v⟩ := row
          obtain rfl : e₀.outcomeHash = h := hown
          exact (hsets e₀ he₀).append_own p v
        · next hother => exact (hsets e₀ he₀).append_other (Ne.symm hother)
      · next hnew =>
        have hno : ∀ row' ∈ rows, row'.2.1 ≠ row.2.1 := by
          intro row' hrow' heq
          exact hnew ((hkeys _).mpr ⟨row', hrow', heq⟩)
        rcases Keyed.mem_insertOrIgnore.mp he with hold | ⟨-, rfl⟩
        · refine (hsets e hold).append_other fun heq => hnew ?_
          rw [heq]
          exact Keyed.contains_of_mem hold
        · exact SetOf.single hno
    · rw [contains_addJoined, hkeys]
      simp only [List.mem_append, List.mem_singleton, or_and_right, exists_or, exists_eq_left]

end Joined

/-- A verifier set carries the submitter of the task its outcome references. -/
theorem verifierSet_origin {e : VerifierSet}
    (he : e ∈ (s.verifierSets cutoff).rows) :
    ∃ o ∈ s.outcomes.rows, ∃ t ∈ s.tasks.rows, o.outcomeHash = e.outcomeHash ∧
      t.specHash = o.specHash ∧ t.submitter = e.submitter := by
  obtain ⟨v, hv⟩ := ((setOf_foldl (s.agreedJoin cutoff)).1 e he).submitter
  obtain ⟨o, ho, hhash, -, -, hsub, -⟩ := mem_agreedJoin_iff.mp hv
  rw [submitterOf, Option.map_eq_some_iff] at hsub
  obtain ⟨t, ht, hsubmitter⟩ := hsub
  obtain ⟨hmem, hspec⟩ := Keyed.find?_eq_some_iff.mp ht
  exact ⟨o, ho, t, hmem, hhash, hspec, hsubmitter⟩

end Parseh.Shared.SharedState
