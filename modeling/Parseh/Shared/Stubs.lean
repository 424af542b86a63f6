import Parseh.Shared.Queries

/-!
# What the stub rows of synced outcomes do

`record_synced_outcome` writes a placeholder where the task or the result of the
outcome is missing.  Every writer ignores a taken key, so over a whole run the
first row offered under a key is the one that stays (`run_tasks`): a stub hides
the real spec or result that comes later.

* `recentTasks_exact_iff`: `recent_tasks` answers as documented exactly in the
  runs that keep its window free of stubs, of hidden specs and of timestamps from
  `2^63` on;
* `first_writer_wins`: the row that stays, for the three places an outcome can
  take among the deliveries of its spec and result.
-/

namespace Parseh.Shared.SharedState

open Parseh.Lib Parseh.Wire

variable {W : Type} {x : Externals W} {s : SharedState} {c : Call W}

/-! ## The tasks of a run -/

/-- **The first offer stays.**  The tasks of a run are the rows its calls offer,
inserted in order. -/
theorem run_tasks (x : Externals W) (s : SharedState) (calls : List (Call W)) :
    (run (write x) s calls).tasks = s.tasks.insertAll (calls.flatMap (Call.offeredTasks x)) := by
  induction calls generalizing s with
  | nil => rfl
  | cons c calls ih =>
    rw [run_cons, ih, (write_grown x s c).tasks, List.flatMap_cons, Keyed.insertAll_append]

/-- The specs a list of calls records. -/
def recordedSpecs (calls : List (Call W)) : List JobSpec :=
  calls.filterMap fun c =>
    match c.write with
    | .recordSpec spec => some spec
    | _ => none

theorem mem_recordedSpecs {calls : List (Call W)} {spec : JobSpec} :
    spec ∈ recordedSpecs calls ↔ ∃ c ∈ calls, c.write = .recordSpec spec := by
  simp only [recordedSpecs, List.mem_filterMap]
  constructor
  · rintro ⟨c, hc, h⟩
    refine ⟨c, hc, ?_⟩
    split at h
    · next heq => rw [heq, Option.some.inj h]
    · cases h
  · rintro ⟨c, hc, h⟩
    exact ⟨c, hc, by rw [h]⟩

/-- A task row is the row of a recorded spec or the stub of a synced outcome. -/
theorem taskRow_origin {calls : List (Call W)} {t : TaskRow}
    (ht : t ∈ (run (write x) .empty calls).tasks.rows) :
    (∃ spec ∈ recordedSpecs calls, ∃ now, t = taskRow x spec now) ∨
      ∃ o : JobOutcome W, t = stubTask o := by
  rw [run_tasks] at ht
  rcases Keyed.mem_of_mem_insertAll ht with ht | ht
  · cases ht
  · obtain ⟨c, hc, hoff⟩ := List.mem_flatMap.mp ht
    unfold Call.offeredTasks at hoff
    split at hoff
    · next spec heq =>
      exact Or.inl ⟨spec, mem_recordedSpecs.mpr ⟨c, hc, heq⟩, c.now, List.mem_singleton.mp hoff⟩
    · next o heq => exact Or.inr ⟨o, List.mem_singleton.mp hoff⟩
    · cases hoff

/-! ## `recent_tasks` -/

/-- What the query promises: it answers, by `submitted_at`, with exactly the
recorded specs from `sinceUnix` on, each once. -/
def TasksExact (x : Externals W) (calls : List (Call W)) (sinceUnix : UInt64) : Prop :=
  ∃ specs, (run (write x) .empty calls).recentTasks x sinceUnix = .ok specs ∧
    specs.Pairwise (fun a b => a.submittedAt ≤ b.submittedAt) ∧ specs.Nodup ∧
    ∀ spec, spec ∈ specs ↔ spec ∈ recordedSpecs calls ∧ sinceUnix ≤ spec.submittedAt

/-- The call keeps the window from `sinceUnix` on readable: a spec in it has a
timestamp below `2^63` and finds its hash free or its own body there; an outcome
whose task is unknown was finalised before it. -/
def KeepsReadable (x : Externals W) (sinceUnix : UInt64) (s : SharedState) (c : Call W) : Prop :=
  match c.write with
  | .recordSpec spec => sinceUnix ≤ spec.submittedAt → spec.submittedAt.toNat < 2 ^ 63 ∧
      ∀ t ∈ s.tasks.rows, t.specHash = spec.contentHash x → t.specCbor = x.specCbor.encode spec
  | .recordSyncedOutcome o => s.tasks.contains o.specHash = true ∨
      o.finalisedAt.toInt64.toInt < sinceUnix.toInt64.toInt
  | _ => True

instance (x : Externals W) (sinceUnix : UInt64) (s : SharedState) (c : Call W) :
    Decidable (KeepsReadable x sinceUnix s c) :=
  match c with
  | ⟨_, .recordSpec spec⟩ =>
    inferInstanceAs (Decidable (sinceUnix ≤ spec.submittedAt →
      spec.submittedAt.toNat < 2 ^ 63 ∧ ∀ t ∈ s.tasks.rows,
        t.specHash = spec.contentHash x → t.specCbor = x.specCbor.encode spec))
  | ⟨_, .recordSyncedOutcome o⟩ =>
    inferInstanceAs (Decidable (s.tasks.contains o.specHash = true ∨
      o.finalisedAt.toInt64.toInt < sinceUnix.toInt64.toInt))
  | ⟨_, .recordResult _⟩ | ⟨_, .recordVerification _⟩ | ⟨_, .recordOutcome _⟩
  | ⟨_, .applyReputationDelta ..⟩ | ⟨_, .upsertGovernanceRule ..⟩ | ⟨_, .applyDelta ..⟩ =>
    inferInstanceAs (Decidable True)

/-- No stub is in the window. -/
def NoStub (sinceUnix : UInt64) (s : SharedState) : Prop :=
  ∀ t ∈ s.tasks.rows, sinceUnix.toInt64.toInt ≤ t.submittedAt.toInt → t.kind ≠ .syncedStub

/-- The body of the spec is stored, under a timestamp that is comparable. -/
def Stored (x : Externals W) (s : SharedState) (spec : JobSpec) : Prop :=
  spec.submittedAt.toNat < 2 ^ 63 ∧
    ∃ t ∈ s.tasks.rows, t.specHash = spec.contentHash x ∧ t.specCbor = x.specCbor.encode spec

/-! ### The condition on the final store -/

theorem noStub_write {sinceUnix : UInt64} (hc : KeepsReadable x sinceUnix s c)
    (hs : NoStub sinceUnix s) : NoStub sinceUnix (s.write x c) := by
  intro t ht hsince
  rw [(write_grown x s c).tasks, Keyed.mem_insertAll] at ht
  rcases ht with ht | ⟨hfree, hfind⟩
  · exact hs t ht hsince
  · have hoff := List.mem_of_find?_eq_some hfind
    unfold Call.offeredTasks at hoff
    split at hoff
    · rw [List.mem_singleton.mp hoff]
      simp [taskRow]
    · next o heq =>
      -- the stub is new and in the window, which the condition excludes
      rw [List.mem_singleton.mp hoff] at hfree hsince
      simp only [KeepsReadable, heq] at hc
      rcases hc with hc | hc
      · rw [show (stubTask o).specHash = o.specHash from rfl, hc] at hfree
        cases hfree
      · exact absurd hsince (not_le.mpr hc)
    · cases hoff

/-- The only row a call offers is inserted under a free hash. -/
theorem offered_inserted {t : TaskRow} (hoff : c.offeredTasks x = [t])
    (hfree : s.tasks.contains t.specHash = false) : t ∈ (s.write x c).tasks.rows := by
  rw [(write_grown x s c).tasks, hoff, Keyed.mem_insertAll]
  exact Or.inr ⟨hfree, by simp⟩

theorem stored_of_keepsReadable {sinceUnix : UInt64} {spec : JobSpec}
    (hw : c.write = .recordSpec spec) (hc : KeepsReadable x sinceUnix s c)
    (hspec : sinceUnix ≤ spec.submittedAt) : Stored x (s.write x c) spec := by
  simp only [KeepsReadable, hw] at hc
  obtain ⟨hlt, hown⟩ := hc hspec
  refine ⟨hlt, ?_⟩
  have hg := write_grown x s c
  cases hcon : s.tasks.contains (spec.contentHash x) with
  | true =>
    obtain ⟨t, ht, hk⟩ := Keyed.contains_iff.mp hcon
    exact ⟨t, hg.keeps.tasks t ht, hk, hown t ht hk⟩
  | false =>
    exact ⟨taskRow x spec c.now, offered_inserted (by simp only [Call.offeredTasks, hw]) hcon,
      rfl, rfl⟩

theorem Stored.kept {s' : SharedState} {spec : JobSpec} (h : Stored x s spec)
    (hk : Keeps s s') : Stored x s' spec := by
  obtain ⟨hlt, t, ht, hown⟩ := h
  exact ⟨hlt, t, hk.tasks t ht, hown⟩

/-- A call of a run that ends without stubs in the window and with its spec
stored has kept the window readable. -/
theorem keepsReadable_of_final {sinceUnix : UInt64} {s' : SharedState}
    (hk : Keeps (s.write x c) s') (hstub : NoStub sinceUnix s')
    (hstored : ∀ spec, c.write = .recordSpec spec → sinceUnix ≤ spec.submittedAt →
      Stored x s' spec) : KeepsReadable x sinceUnix s c := by
  unfold KeepsReadable
  split
  · next spec hw =>
    intro hsince
    obtain ⟨hlt, t, ht, hkey, hown⟩ := hstored spec hw hsince
    refine ⟨hlt, fun t' ht' hkey' => ?_⟩
    have hfinal := hk.tasks t' ((write_grown x s c).keeps.tasks t' ht')
    rw [Keyed.eq_of_key_eq _ hfinal ht (hkey'.trans hkey.symm)]
    exact hown
  · next o hw =>
    cases hcon : s.tasks.contains o.specHash with
    | true => exact Or.inl rfl
    | false =>
      -- the stub is inserted and stays
      refine Or.inr (not_le.mp fun hsince => ?_)
      have hin : stubTask o ∈ (s.write x c).tasks.rows :=
        offered_inserted (by simp only [Call.offeredTasks, hw]) hcon
      exact hstub _ (hk.tasks _ hin) hsince rfl
  · trivial

/-- The condition along the run says that the final store is free of stubs in the
window and holds every spec of it. -/
theorem guarded_keepsReadable_iff (x : Externals W) (sinceUnix : UInt64) (calls : List (Call W)) :
    Guarded (write x) (KeepsReadable x sinceUnix) .empty calls ↔
      NoStub sinceUnix (run (write x) .empty calls) ∧
      ∀ spec ∈ recordedSpecs calls, sinceUnix ≤ spec.submittedAt →
        Stored x (run (write x) .empty calls) spec := by
  constructor
  · intro hg
    refine ⟨hg.invariant (fun s c hc hs => noStub_write hc hs) (by intro t ht; cases ht), ?_⟩
    revert hg
    generalize SharedState.empty = s
    induction calls generalizing s with
    | nil =>
      intro _ spec hspec
      cases hspec
    | cons c calls ih =>
      rintro ⟨hc, hg⟩ spec hspec hsince
      obtain ⟨c', hc', hw⟩ := mem_recordedSpecs.mp hspec
      rcases List.mem_cons.mp hc' with rfl | hc'
      · exact (stored_of_keepsReadable hw hc hsince).kept (keeps_run x _ calls)
      · exact ih _ hg spec (mem_recordedSpecs.mpr ⟨c', hc', hw⟩) hsince
  · rintro ⟨hstub, hstored⟩
    revert hstub hstored
    generalize SharedState.empty = s
    induction calls generalizing s with
    | nil =>
      intro _ _
      exact trivial
    | cons c calls ih =>
      intro hstub hstored
      refine ⟨keepsReadable_of_final (keeps_run x _ calls) hstub fun spec hw => hstored spec ?_,
        ih _ hstub fun spec hspec => hstored spec ?_⟩
      · exact mem_recordedSpecs.mpr ⟨c, by simp, hw⟩
      · obtain ⟨c', hc', hw⟩ := mem_recordedSpecs.mp hspec
        exact mem_recordedSpecs.mpr ⟨c', by simp [hc'], hw⟩

section RecentTasks

variable {calls : List (Call W)} {sinceUnix : UInt64}
  (hempty : x.specCbor.decode [] = none)
  (hround : ∀ spec ∈ recordedSpecs calls,
    x.specCbor.decode (x.specCbor.encode spec) = some spec)
include hempty hround

/-- A stored body that decodes is that of a recorded spec, in its own row. -/
theorem decoded_origin {t : TaskRow} (ht : t ∈ (run (write x) .empty calls).tasks.rows)
    {spec : JobSpec} (hdec : x.specCbor.decode t.specCbor = some spec) :
    spec ∈ recordedSpecs calls ∧ ∃ now, t = taskRow x spec now := by
  rcases taskRow_origin ht with ⟨spec', hspec', now, rfl⟩ | ⟨o, rfl⟩
  · have hsame : spec' = spec :=
      Option.some.inj ((hround spec' hspec').symm.trans hdec)
    subst hsame
    exact ⟨hspec', now, rfl⟩
  · rw [show (stubTask o).specCbor = [] from rfl, hempty] at hdec
    cases hdec

omit hempty in
/-- A row of the window that is no stub decodes. -/
theorem decodes_of_noStub (hstub : NoStub sinceUnix (run (write x) .empty calls)) {t : TaskRow}
    (ht : t ∈ (run (write x) .empty calls).recentTaskRows sinceUnix) :
    (x.specCbor.decode t.specCbor).isSome = true := by
  obtain ⟨hmem, hsince⟩ := mem_recentTaskRows.mp ht
  rcases taskRow_origin hmem with ⟨spec, hspec, now, rfl⟩ | ⟨o, rfl⟩
  · rw [show (taskRow x spec now).specCbor = x.specCbor.encode spec from rfl, hround spec hspec]
    rfl
  · exact absurd rfl (hstub _ hmem hsince)

theorem stored_of_tasksExact (hsince : sinceUnix.toNat < 2 ^ 63)
    (h : TasksExact x calls sinceUnix) {spec : JobSpec} (hspec : spec ∈ recordedSpecs calls)
    (hle : sinceUnix ≤ spec.submittedAt) : Stored x (run (write x) .empty calls) spec := by
  obtain ⟨specs, hok, -, -, hmem⟩ := h
  have hmap := recentTasks_eq_ok_iff.mp hok
  have hin : some spec ∈ specs.map some := List.mem_map_of_mem ((hmem spec).mpr ⟨hspec, hle⟩)
  rw [← hmap] at hin
  obtain ⟨t, ht, hdec⟩ := List.mem_map.mp hin
  obtain ⟨hrow, hwin⟩ := mem_recentTaskRows.mp ht
  obtain ⟨-, now, rfl⟩ := decoded_origin hempty hround hrow hdec
  have hnonneg : 0 ≤ spec.submittedAt.toInt64.toInt := by
    rw [toInt_toInt64_of_lt hsince] at hwin
    exact le_trans (Int.natCast_nonneg _) hwin
  exact ⟨lt_of_toInt_toInt64 hnonneg, _, hrow, rfl, rfl⟩

theorem noStub_of_tasksExact (h : TasksExact x calls sinceUnix) :
    NoStub sinceUnix (run (write x) .empty calls) := by
  obtain ⟨specs, hok, -⟩ := h
  intro t ht hwin hkind
  have hin := List.mem_map_of_mem (f := fun t => x.specCbor.decode t.specCbor)
    (mem_recentTaskRows.mpr ⟨ht, hwin⟩)
  rw [recentTasks_eq_ok_iff.mp hok] at hin
  obtain ⟨spec, -, hdec⟩ := List.mem_map.mp hin
  obtain ⟨-, now, rfl⟩ := decoded_origin hempty hround ht hdec.symm
  cases hkind

/-- In the window a body decodes to the spec of its own row, and the casts keep
the timestamps. -/
theorem window_row (hsince : sinceUnix.toNat < 2 ^ 63) {t : TaskRow}
    (ht : t ∈ (run (write x) .empty calls).recentTaskRows sinceUnix) {spec : JobSpec}
    (hdec : x.specCbor.decode t.specCbor = some spec) :
    spec ∈ recordedSpecs calls ∧ t.specHash = spec.contentHash x ∧
      t.submittedAt.toInt = spec.submittedAt.toNat ∧ sinceUnix ≤ spec.submittedAt := by
  obtain ⟨hrow, hwin⟩ := mem_recentTaskRows.mp ht
  obtain ⟨hspec, now, rfl⟩ := decoded_origin hempty hround hrow hdec
  have hwin' : sinceUnix.toInt64.toInt ≤ spec.submittedAt.toInt64.toInt := hwin
  rw [toInt_toInt64_of_lt hsince] at hwin'
  have hlt := lt_of_toInt_toInt64 (le_trans (Int.natCast_nonneg _) hwin')
  have hcast := toInt_toInt64_of_lt hlt
  rw [hcast] at hwin'
  exact ⟨hspec, rfl, hcast, UInt64.le_iff_toNat_le.mpr (by omega)⟩

theorem tasksExact_of_stored (hsince : sinceUnix.toNat < 2 ^ 63)
    (hstub : NoStub sinceUnix (run (write x) .empty calls))
    (hstored : ∀ spec ∈ recordedSpecs calls, sinceUnix ≤ spec.submittedAt →
      Stored x (run (write x) .empty calls) spec) : TasksExact x calls sinceUnix := by
  let rows := (run (write x) .empty calls).recentTaskRows sinceUnix
  let decode := fun t : TaskRow => x.specCbor.decode t.specCbor
  refine ⟨rows.filterMap decode, ?_, ?_, ?_, ?_⟩
  · exact mapM_okOr_of_isSome (fun t ht => decodes_of_noStub hround hstub ht) _
  · rw [List.pairwise_filterMap]
    refine (pairwise_sortByKey _ _).imp_of_mem fun ha hb hab spec hspec spec' hspec' => ?_
    obtain ⟨-, -, hcast, -⟩ := window_row hempty hround hsince ha hspec
    obtain ⟨-, -, hcast', -⟩ := window_row hempty hround hsince hb hspec'
    rw [hcast, hcast'] at hab
    exact UInt64.le_iff_toNat_le.mpr (by omega)
  · rw [List.Nodup, List.pairwise_filterMap]
    have hnd : rows.Nodup :=
      (sortByKey_perm_self _ _).nodup_iff.mpr ((Keyed.rows_nodup _).filter _)
    refine hnd.imp_of_mem fun ha hb hab spec hspec spec' hspec' heq => hab ?_
    obtain ⟨-, hkey, -, -⟩ := window_row hempty hround hsince ha hspec
    obtain ⟨-, hkey', -, -⟩ := window_row hempty hround hsince hb hspec'
    refine Keyed.eq_of_key_eq _ (mem_recentTaskRows.mp ha).1 (mem_recentTaskRows.mp hb).1 ?_
    rw [hkey, hkey', heq]
  · intro spec
    rw [List.mem_filterMap]
    constructor
    · rintro ⟨t, ht, hdec⟩
      obtain ⟨hspec, -, -, hle⟩ := window_row hempty hround hsince ht hdec
      exact ⟨hspec, hle⟩
    · rintro ⟨hspec, hle⟩
      obtain ⟨hlt, t, ht, -, hown⟩ := hstored spec hspec hle
      have hdec : x.specCbor.decode t.specCbor = some spec := by
        rw [hown, hround spec hspec]
      obtain ⟨-, now, rfl⟩ := decoded_origin hempty hround ht hdec
      refine ⟨_, mem_recentTaskRows.mpr ⟨ht, ?_⟩, hdec⟩
      have hle' := UInt64.le_iff_toNat_le.mp hle
      change sinceUnix.toInt64.toInt ≤ spec.submittedAt.toInt64.toInt
      rw [toInt_toInt64_of_lt hsince, toInt_toInt64_of_lt hlt]
      omega

/-- **Task queries.**  `recent_tasks` returns exactly the recorded specs of its
window, in order and each once, if and only if every call of the run keeps that
window readable. -/
theorem recentTasks_exact_iff (hsince : sinceUnix.toNat < 2 ^ 63) :
    TasksExact x calls sinceUnix ↔
      Guarded (write x) (KeepsReadable x sinceUnix) .empty calls := by
  rw [guarded_keepsReadable_iff]
  constructor
  · intro h
    exact ⟨noStub_of_tasksExact hempty hround h,
      fun spec hspec hle => stored_of_tasksExact hempty hround hsince h hspec hle⟩
  · rintro ⟨hstub, hstored⟩
    exact tasksExact_of_stored hempty hround hsince hstub hstored

end RecentTasks

/-- A spec, then a synced outcome of a task the store has never seen. -/
def poisonedCalls : List (Call ℚ) :=
  [⟨0, .recordSpec (smallSpec true)⟩,
    ⟨6, .recordSyncedOutcome
      (outcomeOf (smallSpecHash false) (smallResultHash false) .indeterminate 5 9)⟩]

/-- The stub does not decode, so the query fails as a whole. -/
theorem poisoned_tasks_unreadable : ¬ TasksExact twoTaskExternals poisonedCalls 0 := by
  rintro ⟨specs, h, -⟩
  have hfail : (run (write twoTaskExternals) .empty poisonedCalls).recentTasks twoTaskExternals 0 =
      .error (.cborDecode "spec_cbor") := by
    decide +kernel
  rw [hfail] at h
  cases h

/-- The same outcome after its own spec leaves the query exact. -/
theorem known_task_readable :
    TasksExact twoTaskExternals (⟨0, .recordSpec (smallSpec false)⟩ :: poisonedCalls) 0 :=
  (recentTasks_exact_iff (by decide) (by decide +kernel) (by decide)).mpr (by decide +kernel)

/-! ## An outcome among the deliveries of its spec and result -/

section Deliveries

variable {outcome : JobOutcome W} {spec : JobSpec} {result : JobResult} {t₁ t₂ t₃ : Int64}

/-- The rows a store `s'` has under the two hashes: those `s` had, else the ones
given; all other tasks and results are as in `s`. -/
structure Settled (s s' : SharedState) (t : TaskRow) (r : ResultRow) : Prop where
  task : s'.tasks.find? t.specHash = some ((s.tasks.find? t.specHash).getD t)
  result : s'.results.find? r.resultHash = some ((s.results.find? r.resultHash).getD r)
  otherTasks : ∀ k, k ≠ t.specHash → s'.tasks.find? k = s.tasks.find? k
  otherResults : ∀ k, k ≠ r.resultHash → s'.results.find? k = s.results.find? k

/-- Of two rows offered under one key the first is settled. -/
private theorem find?_insertAll_pair {R K : Type} [DecidableEq K] {key : R → K} (t : Keyed key)
    {a b : R} (hab : key b = key a) :
    (t.insertAll [a, b]).find? (key a) = some ((t.find? (key a)).getD a) ∧
      ∀ k, k ≠ key a → (t.insertAll [a, b]).find? k = t.find? k := by
  constructor
  · rw [Keyed.find?_insertAll]
    cases t.find? (key a) <;> simp
  · intro k hk
    rw [Keyed.find?_insertAll]
    simp [hab, hk.symm]

theorem settled_of_insertAll {s s' : SharedState} {a b : TaskRow} {p q : ResultRow}
    (ht : s'.tasks = s.tasks.insertAll [a, b]) (hr : s'.results = s.results.insertAll [p, q])
    (hab : b.specHash = a.specHash) (hpq : q.resultHash = p.resultHash) : Settled s s' a p where
  task := ht ▸ (find?_insertAll_pair s.tasks hab).1
  result := hr ▸ (find?_insertAll_pair s.results hpq).1
  otherTasks := ht ▸ (find?_insertAll_pair s.tasks hab).2
  otherResults := hr ▸ (find?_insertAll_pair s.results hpq).2

/-- A result whose hash or task is there is offered to the table. -/
theorem write_recordResult_results (h : s.results.contains (result.contentHash x) = true ∨
    s.tasks.contains result.specHash = true) (now : Int64) :
    (s.write x ⟨now, .recordResult result⟩).results =
      s.results.insertOrIgnore (resultRow x result now) := by
  obtain ⟨s', hs'⟩ := recordResult_isOk.mpr h
  rw [write_of_ok (show Call.exec x s ⟨now, .recordResult result⟩ = .ok s' from hs')]
  exact (recordResult_ok hs').1

/-- A result whose task is not there adds nothing. -/
theorem write_recordResult_of_not_contains (h : s.tasks.contains result.specHash = false)
    (now : Int64) : (s.write x ⟨now, .recordResult result⟩).results = s.results := by
  rw [(write_grown x s _).results]
  simp [Call.acceptedResults, h]

theorem write_recordResult_tasks (x : Externals W) (s : SharedState) (result : JobResult)
    (now : Int64) : (s.write x ⟨now, .recordResult result⟩).tasks = s.tasks :=
  (write_grown x s _).tasks

/-- The submitter of a task row that stays is the one its outcomes are attributed
to. -/
theorem attributed_of_taskRow {t : TaskRow} (ht : t ∈ s.tasks.rows) (later : List (Call W))
    {cutoff : Int} {e : VerifierSet}
    (he : e ∈ ((run (write x) s later).verifierSets cutoff).rows) {o : OutcomeRow}
    (ho : o ∈ (run (write x) s later).outcomes.rows) (heo : e.outcomeHash = o.outcomeHash)
    (hto : o.specHash = t.specHash) : e.submitter = t.submitter := by
  obtain ⟨o', ho', t', ht', hoe, hto', hsub⟩ := verifierSet_origin he
  have hoo : o' = o := Keyed.eq_of_key_eq _ ho' ho (hoe.trans heo)
  subst hoo
  have htt : t' = t :=
    Keyed.eq_of_key_eq _ ht' ((keeps_run x s later).tasks t ht) (hto'.trans hto)
  rw [← hsub, htt]

/-- The row a result leaves after its spec: its own, unless it names another spec
that is not there. -/
def resultOrStub (x : Externals W) (s : SharedState) (spec : JobSpec) (result : JobResult)
    (now : Int64) (outcome : JobOutcome W) : ResultRow :=
  if result.specHash = spec.contentHash x ∨ s.tasks.contains result.specHash = true then
    resultRow x result now
  else stubResult outcome

/-- After its spec and result, the outcome finds their rows there. -/
theorem settled_synced_last (x : Externals W) (s : SharedState)
    (hspec : outcome.specHash = spec.contentHash x)
    (hresult : outcome.resultHash = result.contentHash x) (t₁ t₂ t₃ : Int64) :
    Settled s (run (write x) s
      [⟨t₁, .recordSpec spec⟩, ⟨t₂, .recordResult result⟩, ⟨t₃, .recordSyncedOutcome outcome⟩])
      (taskRow x spec t₁) (resultOrStub x s spec result t₂ outcome) := by
  have htasks : (run (write x) s [⟨t₁, .recordSpec spec⟩, ⟨t₂, .recordResult result⟩,
      ⟨t₃, .recordSyncedOutcome outcome⟩]).tasks =
      s.tasks.insertAll [taskRow x spec t₁, stubTask outcome] := by
    change ((s.write x _).write x _).tasks.insertOrIgnore (stubTask outcome) = _
    rw [write_recordResult_tasks]
    rfl
  have hcontains : (s.write x ⟨t₁, .recordSpec spec⟩).tasks.contains result.specHash = true ↔
      result.specHash = spec.contentHash x ∨ s.tasks.contains result.specHash = true := by
    change (s.tasks.insertOrIgnore (taskRow x spec t₁)).contains result.specHash = true ↔ _
    rw [Keyed.contains_insertOrIgnore, or_comm, eq_comm]
    rfl
  unfold resultOrStub
  split
  · next hin =>
    refine settled_of_insertAll (b := stubTask outcome) (q := stubResult outcome) htasks ?_ hspec
      hresult
    change ((s.write x _).write x _).results.insertOrIgnore (stubResult outcome) = _
    rw [write_recordResult_results (Or.inr (hcontains.mpr hin))]
    rfl
  · next hout =>
    refine settled_of_insertAll (b := stubTask outcome) (q := stubResult outcome) htasks ?_ hspec
      rfl
    change ((s.write x _).write x _).results.insertOrIgnore (stubResult outcome) = _
    rw [write_recordResult_of_not_contains (by rw [← Bool.not_eq_true, hcontains]; exact hout)]
    exact (Keyed.insertOrIgnore_of_contains
      (Keyed.contains_insertOrIgnore.mpr (Or.inr rfl))).symm

/-- **First writer wins.**  An outcome synced before, between or after the
deliveries of its spec and result: under each of the two hashes the row that was
there stays, else the row of whichever was recorded first, the real one or the
stub; nothing else changes.  With the spec first, the outcome is attributed to
its real submitter from then on. -/
theorem first_writer_wins (x : Externals W) (s : SharedState) (outcome : JobOutcome W)
    (spec : JobSpec) (result : JobResult) (hspec : outcome.specHash = spec.contentHash x)
    (hresult : outcome.resultHash = result.contentHash x) (t₁ t₂ t₃ : Int64) :
    Settled s (run (write x) s
      [⟨t₁, .recordSyncedOutcome outcome⟩, ⟨t₂, .recordSpec spec⟩, ⟨t₃, .recordResult result⟩])
      (stubTask outcome) (stubResult outcome) ∧
    Settled s (run (write x) s
      [⟨t₁, .recordSpec spec⟩, ⟨t₂, .recordSyncedOutcome outcome⟩, ⟨t₃, .recordResult result⟩])
      (taskRow x spec t₁) (stubResult outcome) ∧
    Settled s (run (write x) s
      [⟨t₁, .recordSpec spec⟩, ⟨t₂, .recordResult result⟩, ⟨t₃, .recordSyncedOutcome outcome⟩])
      (taskRow x spec t₁) (resultOrStub x s spec result t₂ outcome) ∧
    (s.tasks.contains (spec.contentHash x) = false → ∀ (calls : List (Call W)) cutoff,
      ∀ e ∈ ((run (write x) s (⟨t₁, .recordSpec spec⟩ :: calls)).verifierSets cutoff).rows,
      ∀ o ∈ (run (write x) s (⟨t₁, .recordSpec spec⟩ :: calls)).outcomes.rows,
        o.specHash = spec.contentHash x → e.outcomeHash = o.outcomeHash →
          e.submitter = spec.submitter) := by
  refine ⟨?_, ?_, ?_, ?_⟩
  · refine settled_of_insertAll (b := taskRow x spec t₂) (q := resultRow x result t₃)
      (write_recordResult_tasks ..) ?_ hspec.symm hresult.symm
    refine write_recordResult_results (Or.inl ?_) t₃
    rw [← hresult]
    exact Keyed.contains_insertOrIgnore.mpr (Or.inr rfl)
  · refine settled_of_insertAll (b := stubTask outcome) (q := resultRow x result t₃)
      (write_recordResult_tasks ..) ?_ hspec hresult.symm
    refine write_recordResult_results (Or.inl ?_) t₃
    rw [← hresult]
    exact Keyed.contains_insertOrIgnore.mpr (Or.inr rfl)
  · exact settled_synced_last x s hspec hresult t₁ t₂ t₃
  · intro hfree calls cutoff e he o ho hos heo
    have hrow : taskRow x spec t₁ ∈ (s.write x ⟨t₁, .recordSpec spec⟩).tasks.rows :=
      Keyed.mem_insertOrIgnore.mpr (Or.inr ⟨hfree, rfl⟩)
    exact attributed_of_taskRow hrow calls he ho heo hos

end Deliveries

/-- A `Valid` outcome of the small task, observed by peer 9. -/
def syncedOutcome : JobOutcome ℚ :=
  outcomeOf (smallSpecHash false) (smallResultHash false) (.valid 1 0 0 1) 5 9

def syncedFirst : List (Call ℚ) :=
  [⟨6, .recordSyncedOutcome syncedOutcome⟩, ⟨7, .recordSpec (smallSpec false)⟩,
    ⟨8, .recordResult (smallResult false)⟩]

def syncedLast : List (Call ℚ) :=
  [⟨6, .recordSpec (smallSpec false)⟩, ⟨7, .recordResult (smallResult false)⟩,
    ⟨8, .recordSyncedOutcome syncedOutcome⟩]

/-- The vote that brings the outcome into the detection query. -/
def agreedCall : Call ℚ := ⟨9, .recordVerification (smallVote false true 11)⟩

/-- Synced first, the stub stays in place of the spec, and the outcome is
attributed to its observer instead of the submitter. -/
theorem synced_first_hides_submitter :
    (run (write (.small false [] [11] [])) .empty syncedFirst).tasks.rows.map
      (fun t => (t.submitter, t.specCbor)) = [(peerOf 9, [])] ∧
    (run (write (.small false [] [11] [])) .empty syncedLast).tasks.rows.map
      (fun t => (t.submitter, t.specCbor)) = [(peerOf 2, specBytes false)] ∧
    (run (write (.small false [] [11] [])) .empty
      (syncedFirst ++ [agreedCall])).detectRepeatingVerifierSets 10 100 1 =
        [⟨peerOf 9, [peerOf 11], 1⟩] ∧
    (run (write (.small false [] [11] [])) .empty
      (syncedLast ++ [agreedCall])).detectRepeatingVerifierSets 10 100 1 =
        [⟨peerOf 2, [peerOf 11], 1⟩] := by
  decide +kernel

/-- Synced last, the real rows are the ones that stay. -/
theorem synced_last_settled :
    Settled .empty (run (write (.small false [] [11] [])) .empty syncedLast)
      (taskRow (.small false [] [11] []) (smallSpec false) 6)
      (resultRow (.small false [] [11] []) (smallResult false) 7) :=
  (first_writer_wins (.small false [] [11] []) .empty syncedOutcome (smallSpec false)
    (smallResult false) (by decide +kernel) (by decide +kernel) 6 7 8).2.2.1

end Parseh.Shared.SharedState
