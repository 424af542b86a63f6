import Parseh.Lib.Run
import Parseh.Shared.Store
import Parseh.Wire.Table

/-!
# Runs of the public writers

A `Call` is one call of a public writer at the second it is made, and
`SharedState.write` is the store it leaves; a failed call leaves the store it
found.  What a call can do is said once: each table grows by the rows of a list
computed from the call (`offeredTasks`, `acceptedResults`,
`acceptedVerifications`, `acceptedOutcomes`), where a taken key is ignored
(`write_grown`).

* `store_integrity`: the references hold in every reachable store, the writers
  fail exactly where a parent is missing, a repeated call changes nothing, and
  no row is ever changed or removed;
* `paired_iff`: an outcome and the result it references speak of one task
  exactly in the runs in which every inserted outcome found them so.
-/

namespace Parseh.Shared

open Parseh.Lib Parseh.Wire

/-- A public writer with its arguments. -/
inductive Write (W : Type)
  | recordSpec (spec : JobSpec)
  | recordResult (result : JobResult)
  | recordVerification (v : JobVerification)
  | recordOutcome (outcome : JobOutcome W)
  | recordSyncedOutcome (outcome : JobOutcome W)
  | applyReputationDelta (peer : PeerId) (delta : Int32) (reason : String)
      (relatedHash : Option ContentHash)
  | upsertGovernanceRule (ruleName ruleValue : String) (proposer : PeerId)
      (approvers : List PeerId)
  | applyDelta (delta : StateDelta W) (signerPubkey : VerifyingKey)

/-- Is it one of the five `record_*` writers? -/
def Write.isRecord {W : Type} : Write W → Bool
  | .recordSpec _ | .recordResult _ | .recordVerification _ | .recordOutcome _
  | .recordSyncedOutcome _ => true
  | _ => false

/-- A call and the value of `now_unix()` in it. -/
structure Call (W : Type) where
  now : Int64
  write : Write W

namespace Call

variable {W : Type} (x : Externals W)

/-- What the call returns, with the store it leaves. -/
def exec (s : SharedState) (c : Call W) : Except StoreError SharedState :=
  match c.write with
  | .recordSpec spec => .ok (s.recordSpec x spec c.now)
  | .recordResult result => s.recordResult x result c.now
  | .recordVerification v => s.recordVerification x v c.now
  | .recordOutcome outcome => s.recordOutcome x outcome c.now
  | .recordSyncedOutcome outcome => .ok (s.recordSyncedOutcome x outcome c.now)
  | .applyReputationDelta peer delta reason relatedHash =>
    .ok (s.applyReputationDelta peer delta reason relatedHash c.now)
  | .upsertGovernanceRule ruleName ruleValue proposer approvers =>
    .ok (s.upsertGovernanceRule x ruleName ruleValue proposer approvers c.now)
  | .applyDelta delta signerPubkey => s.applyDelta x delta signerPubkey c.now

/-! ## The rows a call brings -/

/-- The task row the call offers. -/
def offeredTasks (c : Call W) : List TaskRow :=
  match c.write with
  | .recordSpec spec => [SharedState.taskRow x spec c.now]
  | .recordSyncedOutcome outcome => [SharedState.stubTask outcome]
  | _ => []

/-- The result row the call offers, if its task is there or stubbed. -/
def acceptedResults (s : SharedState) (c : Call W) : List ResultRow :=
  match c.write with
  | .recordResult result =>
    if s.tasks.contains result.specHash then [SharedState.resultRow x result c.now] else []
  | .recordSyncedOutcome outcome => [SharedState.stubResult outcome]
  | _ => []

/-- The verification row the call offers, if its result is there. -/
def acceptedVerifications (s : SharedState) (c : Call W) : List VerificationRow :=
  match c.write with
  | .recordVerification v =>
    if s.results.contains v.resultHash then [SharedState.verificationRow x v c.now] else []
  | _ => []

/-- The outcome the call hands to `record_outcome`: directly, or out of a delta
whose envelope verifies. -/
def offeredOutcome (c : Call W) : Option (JobOutcome W) :=
  match c.write with
  | .recordOutcome outcome => some outcome
  | .applyDelta delta signerPubkey =>
    match verifyDelta x delta signerPubkey, delta.kind with
    | .ok (), .outcome o => some o
    | _, _ => none
  | _ => none

/-- The outcome row the call offers, if its parents are there or stubbed. -/
def acceptedOutcomes (s : SharedState) (c : Call W) : List OutcomeRow :=
  match c.write with
  | .recordSyncedOutcome outcome => [SharedState.outcomeRow x outcome c.now]
  | _ =>
    match c.offeredOutcome x with
    | some o =>
      if s.tasks.contains o.specHash ∧ s.results.contains o.resultHash then
        [SharedState.outcomeRow x o c.now]
      else []
    | none => []

/-- The outcome among the arguments of the call. -/
def Carries (c : Call W) (o : JobOutcome W) : Prop :=
  match c.write with
  | .recordOutcome o' | .recordSyncedOutcome o' => o' = o
  | .applyDelta d _ => d.kind = .outcome o
  | _ => False

end Call

namespace SharedState

variable {W : Type} (x : Externals W)

/-- The store after a call. -/
def write (s : SharedState) (c : Call W) : SharedState := s.orKeep (c.exec x s)

/-! ## What a call changes -/

variable {x} {s : SharedState} {c : Call W}

theorem write_of_ok {s' : SharedState} (h : c.exec x s = .ok s') : s.write x c = s' := by
  rw [write, h]
  rfl

theorem write_of_error {e : StoreError} (h : c.exec x s = .error e) : s.write x c = s := by
  rw [write, h]
  rfl

/-- The four tables of `s'` are those of `s` with the listed rows offered to
them. -/
structure Grown (s s' : SharedState) (ts : List TaskRow) (rs : List ResultRow)
    (vs : List VerificationRow) (os : List OutcomeRow) : Prop where
  tasks : s'.tasks = s.tasks.insertAll ts
  results : s'.results = s.results.insertAll rs
  verifications : s'.verifications = s.verifications.insertAll vs
  outcomes : s'.outcomes = s.outcomes.insertAll os

/-- A write that failed was not one that can succeed. -/
private theorem not_of_error {r : Except StoreError SharedState} {e : StoreError} {P : Prop}
    (hok : (∃ s', r = .ok s') ↔ P) (h : r = .error e) : ¬ P := by
  rw [← hok, h]
  rintro ⟨s', hs⟩
  cases hs

-- In the three lemmas below a write without its parents goes through only when
-- the key was taken, and then it changes nothing.

private theorem grown_recordResult (s : SharedState) (r : JobResult) (now : Int64) :
    Grown s (s.orKeep (s.recordResult x r now)) []
      (if s.tasks.contains r.specHash then [resultRow x r now] else []) [] [] := by
  cases h : s.recordResult x r now with
  | ok s' =>
    obtain ⟨hr, ht, hv, ho, -⟩ := recordResult_ok h
    refine ⟨ht, ?_, hv, ho⟩
    split
    · exact hr
    · next hfk =>
      have hkey : s.results.contains (r.contentHash x) = true :=
        (recordResult_isOk.mp ⟨s', h⟩).resolve_right hfk
      exact hr.trans (Keyed.insertOrIgnore_of_contains hkey)
  | error e =>
    rw [if_neg fun hfk => not_of_error recordResult_isOk h (Or.inr hfk)]
    exact ⟨rfl, rfl, rfl, rfl⟩

private theorem grown_recordVerification (s : SharedState) (v : JobVerification) (now : Int64) :
    Grown s (s.orKeep (s.recordVerification x v now)) [] []
      (if s.results.contains v.resultHash then [verificationRow x v now] else []) [] := by
  cases h : s.recordVerification x v now with
  | ok s' =>
    obtain ⟨hv, ht, hr, ho, -⟩ := recordVerification_ok h
    refine ⟨ht, hr, ?_, ho⟩
    split
    · exact hv
    · next hfk =>
      have hkey : s.verifications.contains (v.contentHash x) = true :=
        (recordVerification_isOk.mp ⟨s', h⟩).resolve_right hfk
      exact hv.trans (Keyed.insertOrIgnore_of_contains hkey)
  | error e =>
    rw [if_neg fun hfk => not_of_error recordVerification_isOk h (Or.inr hfk)]
    exact ⟨rfl, rfl, rfl, rfl⟩

private theorem grown_recordOutcome (s : SharedState) (o : JobOutcome W) (now : Int64) :
    Grown s (s.orKeep (s.recordOutcome x o now)) [] [] []
      (if s.tasks.contains o.specHash ∧ s.results.contains o.resultHash then
        [outcomeRow x o now] else []) := by
  cases h : s.recordOutcome x o now with
  | ok s' =>
    obtain ⟨ho, ht, hr, hv, -⟩ := recordOutcome_ok h
    refine ⟨ht, hr, hv, ?_⟩
    split
    · exact ho
    · next hfk =>
      have hkey : s.outcomes.contains (o.contentHash x) = true :=
        (recordOutcome_isOk.mp ⟨s', h⟩).resolve_right hfk
      exact ho.trans (Keyed.insertOrIgnore_of_contains hkey)
  | error e =>
    rw [if_neg fun hfk => not_of_error recordOutcome_isOk h (Or.inr hfk)]
    exact ⟨rfl, rfl, rfl, rfl⟩

private theorem grown_upsertGovernanceRule (s : SharedState) (name value : String) (p : PeerId)
    (ps : List PeerId) (now : Int64) :
    Grown s (s.upsertGovernanceRule x name value p ps now) [] [] [] [] := by
  unfold upsertGovernanceRule
  dsimp only
  split <;> exact ⟨rfl, rfl, rfl, rfl⟩

/-- **What a call does to the tables.** -/
theorem write_grown (x : Externals W) (s : SharedState) (c : Call W) :
    Grown s (s.write x c) (c.offeredTasks x) (c.acceptedResults x s)
      (c.acceptedVerifications x s) (c.acceptedOutcomes x s) := by
  obtain ⟨now, w⟩ := c
  cases w with
  | recordSpec spec => exact ⟨rfl, rfl, rfl, rfl⟩
  | recordResult r => exact grown_recordResult s r now
  | recordVerification v => exact grown_recordVerification s v now
  | recordOutcome o => exact grown_recordOutcome s o now
  | recordSyncedOutcome o => exact ⟨rfl, rfl, rfl, rfl⟩
  | applyReputationDelta p d reason h => exact ⟨rfl, rfl, rfl, rfl⟩
  | upsertGovernanceRule name value p ps => exact grown_upsertGovernanceRule s name value p ps now
  | applyDelta d key =>
    cases hv : verifyDelta x d key with
    | error e =>
      simp only [write, Call.exec, applyDelta, hv, Call.offeredTasks, Call.acceptedResults,
        Call.acceptedVerifications, Call.acceptedOutcomes, Call.offeredOutcome]
      exact ⟨rfl, rfl, rfl, rfl⟩
    | ok u =>
      cases hk : d.kind with
      | outcome o =>
        simp only [write, Call.exec, applyDelta, hv, hk, Call.offeredTasks, Call.acceptedResults,
          Call.acceptedVerifications, Call.acceptedOutcomes, Call.offeredOutcome]
        exact grown_recordOutcome s o now
      | reputation p d reason h =>
        simp only [write, Call.exec, applyDelta, hv, hk, Call.offeredTasks, Call.acceptedResults,
          Call.acceptedVerifications, Call.acceptedOutcomes, Call.offeredOutcome]
        exact ⟨rfl, rfl, rfl, rfl⟩
      | governanceRule name value p ps =>
        simp only [write, Call.exec, applyDelta, hv, hk, Call.offeredTasks, Call.acceptedResults,
          Call.acceptedVerifications, Call.acceptedOutcomes, Call.offeredOutcome]
        exact grown_upsertGovernanceRule s name value p ps now

theorem carries_of_offered {o : JobOutcome W} (h : c.offeredOutcome x = some o) :
    c.Carries o := by
  obtain ⟨now, w⟩ := c
  cases w with
  | recordOutcome o' => exact Option.some.inj h
  | applyDelta d key =>
    simp only [Call.offeredOutcome] at h
    split at h
    · next hk =>
      cases h
      exact hk
    · cases h
  | _ => cases h

/-- A call accepts at most one outcome row, that of an outcome it carries. -/
theorem acceptedOutcomes_of_mem {o : OutcomeRow} (h : o ∈ c.acceptedOutcomes x s) :
    ∃ outcome, c.Carries outcome ∧ c.acceptedOutcomes x s = [outcomeRow x outcome c.now] := by
  unfold Call.acceptedOutcomes at h ⊢
  split
  · next outcome heq => exact ⟨outcome, by simp only [Call.Carries, heq], rfl⟩
  · cases hoff : c.offeredOutcome x with
    | none => simp_all
    | some outcome =>
      refine ⟨outcome, carries_of_offered hoff, ?_⟩
      simp only [hoff] at h ⊢
      split at h
      · next hp => rw [if_pos hp]
      · cases h

/-! ## Rows are kept -/

/-- Every row of `s` is a row of `s'`. -/
structure Keeps (s s' : SharedState) : Prop where
  tasks : ∀ t ∈ s.tasks.rows, t ∈ s'.tasks.rows
  results : ∀ r ∈ s.results.rows, r ∈ s'.results.rows
  verifications : ∀ v ∈ s.verifications.rows, v ∈ s'.verifications.rows
  outcomes : ∀ o ∈ s.outcomes.rows, o ∈ s'.outcomes.rows

theorem Keeps.refl (s : SharedState) : Keeps s s :=
  ⟨fun _ h => h, fun _ h => h, fun _ h => h, fun _ h => h⟩

theorem Keeps.trans {s₁ s₂ s₃ : SharedState} (h : Keeps s₁ s₂) (h' : Keeps s₂ s₃) :
    Keeps s₁ s₃ where
  tasks t ht := h'.tasks t (h.tasks t ht)
  results r hr := h'.results r (h.results r hr)
  verifications v hv := h'.verifications v (h.verifications v hv)
  outcomes o ho := h'.outcomes o (h.outcomes o ho)

theorem Grown.keeps {s s' : SharedState} {ts : List TaskRow} {rs : List ResultRow}
    {vs : List VerificationRow} {os : List OutcomeRow} (h : Grown s s' ts rs vs os) :
    Keeps s s' where
  tasks _ ht := h.tasks ▸ (Keyed.mem_insertAll ..).mpr (Or.inl ht)
  results _ hr := h.results ▸ (Keyed.mem_insertAll ..).mpr (Or.inl hr)
  verifications _ hv := h.verifications ▸ (Keyed.mem_insertAll ..).mpr (Or.inl hv)
  outcomes _ ho := h.outcomes ▸ (Keyed.mem_insertAll ..).mpr (Or.inl ho)

theorem keeps_run (x : Externals W) (s : SharedState) (calls : List (Call W)) :
    Keeps s (run (write x) s calls) :=
  run_invariant (I := Keeps s) (fun s' c h => h.trans (write_grown x s' c).keeps) (Keeps.refl s)
    calls

/-- An outcome row of a run is that of an outcome one of its calls carries. -/
theorem outcomeRow_origin {calls : List (Call W)} {row : OutcomeRow}
    (h : row ∈ (run (write x) .empty calls).outcomes.rows) :
    ∃ c ∈ calls, ∃ o, c.Carries o ∧ row = outcomeRow x o c.now := by
  have hgen : ∀ s : SharedState, row ∈ (run (write x) s calls).outcomes.rows →
      row ∈ s.outcomes.rows ∨ ∃ c ∈ calls, ∃ o, c.Carries o ∧ row = outcomeRow x o c.now := by
    clear h
    induction calls with
    | nil => exact fun s h => Or.inl h
    | cons c calls ih =>
      intro s h
      rcases ih _ h with h | ⟨c', hc', ho⟩
      · rw [(write_grown x s c).outcomes] at h
        rcases Keyed.mem_of_mem_insertAll h with h | hacc
        · exact Or.inl h
        · obtain ⟨o, hc, heq⟩ := acceptedOutcomes_of_mem hacc
          rw [heq] at hacc
          exact Or.inr ⟨c, by simp, o, hc, List.mem_singleton.mp hacc⟩
      · exact Or.inr ⟨c', by simp [hc'], ho⟩
  rcases hgen _ h with h | h
  · cases h
  · exact h

/-! ## Repeated calls -/

theorem recordSpec_twice (s : SharedState) (spec : JobSpec) (now now' : Int64) :
    (s.recordSpec x spec now).recordSpec x spec now' = s.recordSpec x spec now :=
  insertTask_of_contains (insertTask_contains s (taskRow x spec now))

/-- A synced outcome whose three rows are there is ignored as a whole. -/
theorem recordSyncedOutcome_of_contains {s : SharedState} {o : JobOutcome W}
    (ht : s.tasks.contains o.specHash = true) (hr : s.results.contains o.resultHash = true)
    (ho : s.outcomes.contains (o.contentHash x) = true) (now : Int64) :
    s.recordSyncedOutcome x o now = s := by
  refine SharedState.ext ?_ ?_ rfl ?_ rfl rfl
  · exact Keyed.insertOrIgnore_of_contains (r := stubTask o) ht
  · exact Keyed.insertOrIgnore_of_contains (r := stubResult o) hr
  · exact Keyed.insertOrIgnore_of_contains (r := outcomeRow x o now) ho

theorem recordSyncedOutcome_twice (s : SharedState) (o : JobOutcome W) (now now' : Int64) :
    (s.recordSyncedOutcome x o now).recordSyncedOutcome x o now' =
      s.recordSyncedOutcome x o now :=
  recordSyncedOutcome_of_contains (s := s.recordSyncedOutcome x o now)
    (insertTask_contains s (stubTask o)) (Keyed.contains_insertOrIgnore.mpr (Or.inr rfl))
    (Keyed.contains_insertOrIgnore.mpr (Or.inr rfl)) now'

theorem recordResult_again {s s' : SharedState} {r : JobResult} {now : Int64}
    (h : s.recordResult x r now = .ok s') (now' : Int64) :
    s'.recordResult x r now' = .ok s' := by
  have hkey : s'.results.contains (resultRow x r now').resultHash = true := by
    rw [(recordResult_ok h).1]
    exact Keyed.contains_insertOrIgnore.mpr (Or.inr rfl)
  simp only [recordResult, hkey, if_true]

theorem recordVerification_again {s s' : SharedState} {v : JobVerification} {now : Int64}
    (h : s.recordVerification x v now = .ok s') (now' : Int64) :
    s'.recordVerification x v now' = .ok s' := by
  have hkey : s'.verifications.contains (verificationRow x v now').verificationHash = true := by
    rw [(recordVerification_ok h).1]
    exact Keyed.contains_insertOrIgnore.mpr (Or.inr rfl)
  simp only [recordVerification, hkey, if_true]

theorem recordOutcome_again {s s' : SharedState} {o : JobOutcome W} {now : Int64}
    (h : s.recordOutcome x o now = .ok s') (now' : Int64) :
    s'.recordOutcome x o now' = .ok s' := by
  have hkey : s'.outcomes.contains (outcomeRow x o now').outcomeHash = true := by
    rw [(recordOutcome_ok h).1]
    exact Keyed.contains_insertOrIgnore.mpr (Or.inr rfl)
  simp only [recordOutcome, hkey, if_true]

/-- A `record_*` call that has succeeded once succeeds again and changes
nothing, whenever it is made. -/
theorem exec_again {s s' : SharedState} {c : Call W} (hrec : c.write.isRecord = true)
    (h : c.exec x s = .ok s') (now' : Int64) : (⟨now', c.write⟩ : Call W).exec x s' = .ok s' := by
  obtain ⟨now, w⟩ := c
  cases w with
  | recordSpec spec =>
    cases h
    exact congrArg Except.ok (recordSpec_twice s spec now now')
  | recordResult r => exact recordResult_again h now'
  | recordVerification v => exact recordVerification_again h now'
  | recordOutcome o => exact recordOutcome_again h now'
  | recordSyncedOutcome o =>
    cases h
    exact congrArg Except.ok (recordSyncedOutcome_twice s o now now')
  | _ => cases hrec

/-! ## Integrity -/

/-- The declared references hold. -/
structure References (s : SharedState) : Prop where
  result : ∀ r ∈ s.results.rows, ∃ t ∈ s.tasks.rows, t.specHash = r.specHash
  verification : ∀ v ∈ s.verifications.rows, ∃ r ∈ s.results.rows, r.resultHash = v.resultHash
  outcomeSpec : ∀ o ∈ s.outcomes.rows, ∃ t ∈ s.tasks.rows, t.specHash = o.specHash
  outcomeResult : ∀ o ∈ s.outcomes.rows, ∃ r ∈ s.results.rows, r.resultHash = o.resultHash

theorem references (s : SharedState) : References s where
  result r hr := Keyed.contains_iff.mp (s.resultFk r hr)
  verification v hv := Keyed.contains_iff.mp (s.verificationFk v hv)
  outcomeSpec o ho := Keyed.contains_iff.mp (s.outcomeSpecFk o ho)
  outcomeResult o ho := Keyed.contains_iff.mp (s.outcomeResultFk o ho)

/-- A call fails with a foreign-key error. -/
def FkFails (r : Except StoreError SharedState) : Prop := ∃ text, r = .error (.foreignKey text)

/-- The three checked writers fail exactly where the row is new and a parent is
missing, and a failed call leaves every table as it was. -/
structure FailsExactly (x : Externals W) (s : SharedState) : Prop where
  result : ∀ r now, FkFails (s.recordResult x r now) ↔
    s.results.contains (r.contentHash x) = false ∧ s.tasks.contains r.specHash = false
  verification : ∀ v now, FkFails (s.recordVerification x v now) ↔
    s.verifications.contains (v.contentHash x) = false ∧ s.results.contains v.resultHash = false
  outcome : ∀ o now, FkFails (s.recordOutcome x o now) ↔
    s.outcomes.contains (o.contentHash x) = false ∧
      (s.tasks.contains o.specHash = false ∨ s.results.contains o.resultHash = false)
  unchanged : ∀ (c : Call W) e, c.exec x s = .error e → s.write x c = s

/-- A write whose only error is the missing parent fails exactly when it does
not succeed. -/
private theorem fkFails_iff {r : Except StoreError SharedState} {P : Prop}
    (hok : (∃ s', r = .ok s') ↔ P) (herr : ∀ e, r = .error e → e = fkError) :
    FkFails r ↔ ¬ P := by
  rw [← hok]
  constructor
  · rintro ⟨text, h⟩ ⟨s', hs⟩
    rw [h] at hs
    cases hs
  · intro h
    cases hr : r with
    | ok s' => exact absurd ⟨s', hr⟩ h
    | error e =>
      rw [herr e hr]
      exact ⟨_, rfl⟩

theorem failsExactly (x : Externals W) (s : SharedState) : FailsExactly x s where
  result r now := by
    rw [fkFails_iff recordResult_isOk]
    · simp
    · intro e h
      simp only [recordResult] at h
      split at h
      · cases h
      · split at h <;> cases h
        rfl
  verification v now := by
    rw [fkFails_iff recordVerification_isOk]
    · simp
    · intro e h
      simp only [recordVerification] at h
      split at h
      · cases h
      · split at h <;> cases h
        rfl
  outcome o now := by
    rw [fkFails_iff recordOutcome_isOk, not_or, not_and_or]
    · simp
    · intro e h
      simp only [recordOutcome] at h
      split at h
      · cases h
      · split at h <;> cases h
        rfl
  unchanged _ _ h := write_of_error h

/-- **Store integrity.**  In every store a run of the public writers reaches, the
references hold, the checked writers fail exactly where a parent is missing, a
`record_*` call that succeeded is a no-op from then on, and every row is there
for good. -/
theorem store_integrity (x : Externals W) (calls : List (Call W)) :
    References (run (write x) .empty calls) ∧
    FailsExactly x (run (write x) .empty calls) ∧
    (∀ (c : Call W) s' now', c.write.isRecord = true →
      c.exec x (run (write x) .empty calls) = .ok s' →
      (⟨now', c.write⟩ : Call W).exec x s' = .ok s') ∧
    ∀ later, Keeps (run (write x) .empty calls) (run (write x) .empty (calls ++ later)) := by
  refine ⟨references _, failsExactly x _, fun c s' now' hrec h => exec_again hrec h now', ?_⟩
  intro later
  rw [run_append]
  exact keeps_run x _ later

/-! ## An outcome and its result -/

/-- Every outcome references a result of its own task. -/
def Paired (s : SharedState) : Prop :=
  ∀ o ∈ s.outcomes.rows, ∀ r ∈ s.results.rows, r.resultHash = o.resultHash →
    r.specHash = o.specHash

instance (s : SharedState) : Decidable (Paired s) :=
  inferInstanceAs (Decidable (∀ o ∈ s.outcomes.rows, ∀ r ∈ s.results.rows,
    r.resultHash = o.resultHash → r.specHash = o.specHash))

/-- An outcome the call is about to insert finds under its `result_hash` no row
yet, or one with its own `spec_hash`. -/
def FindsPaired (x : Externals W) (s : SharedState) (c : Call W) : Prop :=
  ∀ o ∈ c.acceptedOutcomes x s, s.outcomes.contains o.outcomeHash = true ∨
    ∀ r ∈ s.results.rows, r.resultHash = o.resultHash → r.specHash = o.specHash

instance (x : Externals W) (s : SharedState) (c : Call W) : Decidable (FindsPaired x s c) :=
  inferInstanceAs (Decidable (∀ o ∈ c.acceptedOutcomes x s,
    s.outcomes.contains o.outcomeHash = true ∨
      ∀ r ∈ s.results.rows, r.resultHash = o.resultHash → r.specHash = o.specHash))

/-- A result row a call adds next to an outcome it accepts is the stub of that
very outcome. -/
theorem acceptedResults_paired {o : OutcomeRow} {r : ResultRow}
    (ho : o ∈ c.acceptedOutcomes x s) (hr : r ∈ c.acceptedResults x s) :
    r.resultHash = o.resultHash ∧ r.specHash = o.specHash := by
  obtain ⟨now, w⟩ := c
  cases w with
  | recordSyncedOutcome outcome =>
    simp only [Call.acceptedOutcomes, Call.acceptedResults, List.mem_singleton] at ho hr
    subst ho hr
    exact ⟨rfl, rfl⟩
  | recordResult result => simp [Call.acceptedOutcomes, Call.offeredOutcome] at ho
  | _ => simp [Call.acceptedResults] at hr

theorem paired_write (hc : FindsPaired x s c) (hs : Paired s) : Paired (s.write x c) := by
  intro o ho r hr hro
  have hg := write_grown x s c
  rw [hg.outcomes, Keyed.mem_insertAll] at ho
  rw [hg.results, Keyed.mem_insertAll] at hr
  rcases ho with ho | ⟨hofree, hofind⟩
  · rcases hr with hr | ⟨hrfree, -⟩
    · exact hs o ho r hr hro
    · -- the outcome is old, so its result is too, and its key is taken
      rw [hro, s.outcomeResultFk o ho] at hrfree
      cases hrfree
  · have homem := List.mem_of_find?_eq_some hofind
    rcases hr with hr | ⟨-, hrfind⟩
    · rcases hc o homem with hcon | hpair
      · rw [hofree] at hcon
        cases hcon
      · exact hpair r hr hro
    · exact (acceptedResults_paired homem (List.mem_of_find?_eq_some hrfind)).2

/-- A call that meets an unpaired result leaves an unpaired outcome for good. -/
theorem findsPaired_of_kept {s' : SharedState} (hk : Keeps (s.write x c) s') (h : Paired s') :
    FindsPaired x s c := by
  intro o ho
  cases hcon : s.outcomes.contains o.outcomeHash with
  | true => exact Or.inl rfl
  | false =>
    refine Or.inr fun r hr hro => ?_
    have hg := write_grown x s c
    have hone : c.acceptedOutcomes x s = [o] := by
      obtain ⟨outcome, -, heq⟩ := acceptedOutcomes_of_mem ho
      rw [heq] at ho ⊢
      rw [List.mem_singleton.mp ho]
    have hin : o ∈ (s.write x c).outcomes.rows := by
      rw [hg.outcomes, hone, Keyed.mem_insertAll]
      exact Or.inr ⟨hcon, by simp⟩
    exact h o (hk.outcomes o hin) r (hk.results r (hg.keeps.results r hr)) hro

/-- **Outcomes and results of one task.**  A run of the writers from the empty
store ends with every outcome paired exactly when each outcome it inserted found
its result absent or of its own task. -/
theorem paired_iff (x : Externals W) (calls : List (Call W)) :
    Paired (run (write x) .empty calls) ↔ Guarded (write x) (FindsPaired x) .empty calls := by
  constructor
  · generalize SharedState.empty = s
    intro h
    induction calls generalizing s with
    | nil => exact trivial
    | cons c calls ih => exact ⟨findsPaired_of_kept (keeps_run x _ calls) h, ih _ h⟩
  · intro hg
    refine hg.invariant (fun s c hc hs => paired_write hc hs) ?_
    intro o ho
    cases ho

/-- Externals that know both specs and the result of the first. -/
def twoTaskExternals : Externals ℚ :=
  Externals.ofTables [(specBytes false, smallSpec false), (specBytes true, smallSpec true)]
    [(resultBytes false, smallResult false)] [] []

/-- Two tasks, the result of the first, and an outcome that joins the second
task with it. -/
def crossedCalls : List (Call ℚ) :=
  [⟨0, .recordSpec (smallSpec false)⟩, ⟨0, .recordSpec (smallSpec true)⟩,
    ⟨1, .recordResult (smallResult false)⟩,
    ⟨2, .recordOutcome (outcomeOf (smallSpecHash true) (smallResultHash false) .indeterminate 2 9)⟩]

/-- Both parents are there, so the crossed outcome is recorded. -/
theorem crossed_outcome_recorded :
    ¬ Paired (run (write twoTaskExternals) .empty crossedCalls) := by
  decide +kernel

end SharedState

end Parseh.Shared
