import Mathlib.Algebra.Ring.Int.Defs
import Parseh.Lib.Keyed
import Parseh.Wire.Messages

/-!
# The shared-state store (`parseh-shared-state`, `store.rs`, `schema.rs`)

The SQLite tables as keyed tables.  The foreign keys of the schema are fields of
`SharedState`, so a store that violates one cannot be built.  `INSERT OR IGNORE`
skips a taken primary key before the foreign key is looked at; otherwise a
missing parent row is an error and nothing is written.

* `recordResult_ok`, `recordVerification_ok` and `recordOutcome_ok` say what a
  successful write changes: one row of one table, and nothing else;
* `recordResult_isOk` and `recordVerification_isOk` say when a write succeeds;
* `verificationsForResult_eq_ok_iff` reads the reward query back as the decoded
  rows of the table.
-/

namespace Parseh.Shared

open Parseh.Lib Parseh.Wire

/-! ## Rows -/

/-- The `kind` column of `tasks`; a synced stub stands for an unknown spec. -/
inductive TaskKind
  | job (kind : JobKind)
  | syncedStub
  deriving DecidableEq

structure TaskRow where
  specHash : ContentHash
  submitter : PeerId
  kind : TaskKind
  sensitive : Bool
  submittedAt : Int64
  specCbor : Bytes
  observedAt : Int64
  deriving DecidableEq

structure ResultRow where
  resultHash : ContentHash
  specHash : ContentHash
  executor : PeerId
  executedAt : Int64
  resultCbor : Bytes
  observedAt : Int64
  deriving DecidableEq

/-- The `verdict` column of `verifications`. -/
inductive VerdictLabel
  | agreed | disagreed | abstained
  deriving DecidableEq

def VerdictLabel.of : VerifierVerdict → VerdictLabel
  | .agreed => .agreed
  | .disagreed _ => .disagreed
  | .abstained => .abstained

structure VerificationRow where
  verificationHash : ContentHash
  resultHash : ContentHash
  verifier : PeerId
  verdict : VerdictLabel
  method : VerifierMethod
  verifiedAt : Int64
  verificationCbor : Bytes
  observedAt : Int64
  deriving DecidableEq

/-- The `verdict` column of `outcomes`. -/
inductive OutcomeLabel
  | valid | disputed | indeterminate
  deriving DecidableEq

def OutcomeLabel.of {W : Type} : OutcomeVerdict W → OutcomeLabel
  | .valid .. => .valid
  | .disputed _ => .disputed
  | .indeterminate => .indeterminate

structure OutcomeRow where
  outcomeHash : ContentHash
  specHash : ContentHash
  resultHash : ContentHash
  verdict : OutcomeLabel
  finalisedAt : Int64
  observedBy : PeerId
  outcomeCbor : Bytes
  observedAt : Int64
  deriving DecidableEq

structure ReputationEntry where
  peer : PeerId
  delta : Int
  reason : String
  relatedHash : Option ContentHash
  appliedAt : Int64
  deriving DecidableEq

/-- A row of `governance_rules`, in the order of its `rule_id`. -/
structure GovernanceRow where
  ruleName : String
  ruleValue : String
  proposedAt : Int64
  activatedAt : Int64
  proposer : PeerId
  approvers : Bytes
  deriving DecidableEq

/-- The `DO UPDATE` of a rule: a known name keeps its `proposed_at` and takes
everything else from the new row. -/
def GovernanceRow.update (new old : GovernanceRow) : GovernanceRow :=
  if old.ruleName = new.ruleName then { new with proposedAt := old.proposedAt } else old

theorem GovernanceRow.update_ruleName (new old : GovernanceRow) :
    (new.update old).ruleName = old.ruleName := by
  unfold GovernanceRow.update
  split
  · next h => exact h.symm
  · rfl

/-- The store.  The log is append-only, in the order of its `entry_id`. -/
@[ext] structure SharedState where
  tasks : Keyed TaskRow.specHash
  results : Keyed ResultRow.resultHash
  verifications : Keyed VerificationRow.verificationHash
  outcomes : Keyed OutcomeRow.outcomeHash
  reputationLog : List ReputationEntry
  governanceRules : Keyed GovernanceRow.ruleName
  resultFk : ∀ r ∈ results.rows, tasks.contains r.specHash = true
  verificationFk : ∀ v ∈ verifications.rows, results.contains v.resultHash = true
  outcomeSpecFk : ∀ o ∈ outcomes.rows, tasks.contains o.specHash = true
  outcomeResultFk : ∀ o ∈ outcomes.rows, results.contains o.resultHash = true

inductive StoreError
  | sqlite (text : String)
  | cborEncode (text : String)
  | cborDecode (text : String)
  | foreignKey (text : String)
  | badSignature (e : DeltaSignError)
  deriving DecidableEq

/-- The error of a missing parent row. -/
def fkError : StoreError := .foreignKey "FOREIGN KEY constraint failed"

/-- `Option::ok_or`. -/
def okOr {V : Type} (o : Option V) (e : StoreError) : Except StoreError V :=
  match o with
  | some v => .ok v
  | none => .error e

@[simp] theorem okOr_some {V : Type} (v : V) (e : StoreError) : okOr (some v) e = .ok v := rfl

@[simp] theorem okOr_none {V : Type} (e : StoreError) : okOr (none : Option V) e = .error e := rfl

namespace SharedState

/-- A database after its migrations, with nothing recorded. -/
def empty : SharedState where
  tasks := Keyed.empty
  results := Keyed.empty
  verifications := Keyed.empty
  outcomes := Keyed.empty
  reputationLog := []
  governanceRules := Keyed.empty
  resultFk := by simp
  verificationFk := by simp
  outcomeSpecFk := by simp
  outcomeResultFk := by simp

/-- A caller that only logs a failed write goes on with the old store. -/
def orKeep (s : SharedState) : Except StoreError SharedState → SharedState
  | .ok s' => s'
  | .error _ => s

/-! ## Raw inserts -/

/-- Insert a task row; the table has no foreign key. -/
def insertTask (s : SharedState) (row : TaskRow) : SharedState :=
  { s with
    tasks := s.tasks.insertOrIgnore row
    resultFk := fun r hr => Keyed.contains_insertOrIgnore.mpr (Or.inl (s.resultFk r hr))
    outcomeSpecFk := fun o ho => Keyed.contains_insertOrIgnore.mpr (Or.inl (s.outcomeSpecFk o ho)) }

/-- Insert a result row whose task is there. -/
def insertResult (s : SharedState) (row : ResultRow) (h : s.tasks.contains row.specHash = true) :
    SharedState :=
  { s with
    results := s.results.insertOrIgnore row
    resultFk := by
      intro r hr
      rcases Keyed.mem_insertOrIgnore.mp hr with hr | ⟨-, rfl⟩
      · exact s.resultFk r hr
      · exact h
    verificationFk := fun v hv =>
      Keyed.contains_insertOrIgnore.mpr (Or.inl (s.verificationFk v hv))
    outcomeResultFk := fun o ho =>
      Keyed.contains_insertOrIgnore.mpr (Or.inl (s.outcomeResultFk o ho)) }

/-- Insert a verification row whose result is there. -/
def insertVerification (s : SharedState) (row : VerificationRow)
    (h : s.results.contains row.resultHash = true) : SharedState :=
  { s with
    verifications := s.verifications.insertOrIgnore row
    verificationFk := by
      intro v hv
      rcases Keyed.mem_insertOrIgnore.mp hv with hv | ⟨-, rfl⟩
      · exact s.verificationFk v hv
      · exact h }

/-- Insert an outcome row whose task and result are there. -/
def insertOutcome (s : SharedState) (row : OutcomeRow)
    (h : s.tasks.contains row.specHash = true ∧ s.results.contains row.resultHash = true) :
    SharedState :=
  { s with
    outcomes := s.outcomes.insertOrIgnore row
    outcomeSpecFk := by
      intro o ho
      rcases Keyed.mem_insertOrIgnore.mp ho with ho | ⟨-, rfl⟩
      · exact s.outcomeSpecFk o ho
      · exact h.1
    outcomeResultFk := by
      intro o ho
      rcases Keyed.mem_insertOrIgnore.mp ho with ho | ⟨-, rfl⟩
      · exact s.outcomeResultFk o ho
      · exact h.2 }

variable {s : SharedState}

/-- A taken key is ignored. -/
theorem insertTask_of_contains {row : TaskRow} (h : s.tasks.contains row.specHash = true) :
    s.insertTask row = s :=
  SharedState.ext (Keyed.insertOrIgnore_of_contains h) rfl rfl rfl rfl rfl

/-! ## The writers -/

section Writers

variable {W : Type} (x : Externals W)

def taskRow (spec : JobSpec) (now : Int64) : TaskRow where
  specHash := spec.contentHash x
  submitter := spec.submitter
  kind := .job spec.kind
  sensitive := spec.sensitive
  submittedAt := spec.submittedAt.toInt64
  specCbor := x.specCbor.encode spec
  observedAt := now

def resultRow (result : JobResult) (now : Int64) : ResultRow where
  resultHash := result.contentHash x
  specHash := result.specHash
  executor := result.executor
  executedAt := result.executedAt.toInt64
  resultCbor := x.resultCbor.encode result
  observedAt := now

def verificationRow (v : JobVerification) (now : Int64) : VerificationRow where
  verificationHash := v.contentHash x
  resultHash := v.resultHash
  verifier := v.verifier
  verdict := .of v.verdict
  method := v.methodUsed
  verifiedAt := v.verifiedAt.toInt64
  verificationCbor := x.verificationCbor.encode v
  observedAt := now

def outcomeRow (outcome : JobOutcome W) (now : Int64) : OutcomeRow where
  outcomeHash := outcome.contentHash x
  specHash := outcome.specHash
  resultHash := outcome.resultHash
  verdict := .of outcome.verdict
  finalisedAt := outcome.finalisedAt.toInt64
  observedBy := outcome.observedBy
  outcomeCbor := x.outcomeCbor.encode outcome
  observedAt := now

/-- `record_spec`; it cannot violate a constraint. -/
def recordSpec (s : SharedState) (spec : JobSpec) (now : Int64) : SharedState :=
  s.insertTask (taskRow x spec now)

def recordResult (s : SharedState) (result : JobResult) (now : Int64) :
    Except StoreError SharedState :=
  let row := resultRow x result now
  if s.results.contains row.resultHash then .ok s
  else if h : s.tasks.contains row.specHash = true then .ok (s.insertResult row h)
  else .error fkError

def recordVerification (s : SharedState) (v : JobVerification) (now : Int64) :
    Except StoreError SharedState :=
  let row := verificationRow x v now
  if s.verifications.contains row.verificationHash then .ok s
  else if h : s.results.contains row.resultHash = true then .ok (s.insertVerification row h)
  else .error fkError

def recordOutcome (s : SharedState) (outcome : JobOutcome W) (now : Int64) :
    Except StoreError SharedState :=
  let row := outcomeRow x outcome now
  if s.outcomes.contains row.outcomeHash then .ok s
  else if h : s.tasks.contains row.specHash = true ∧ s.results.contains row.resultHash = true then
    .ok (s.insertOutcome row h)
  else .error fkError

/-- The stub parent rows of a synced outcome. -/
def stubTask (outcome : JobOutcome W) : TaskRow where
  specHash := outcome.specHash
  submitter := outcome.observedBy
  kind := .syncedStub
  sensitive := false
  submittedAt := outcome.finalisedAt.toInt64
  specCbor := []
  observedAt := outcome.finalisedAt.toInt64

def stubResult (outcome : JobOutcome W) : ResultRow where
  resultHash := outcome.resultHash
  specHash := outcome.specHash
  executor := outcome.observedBy
  executedAt := outcome.finalisedAt.toInt64
  resultCbor := []
  observedAt := outcome.finalisedAt.toInt64

theorem insertTask_contains (s : SharedState) (row : TaskRow) :
    (s.insertTask row).tasks.contains row.specHash = true :=
  Keyed.contains_insertOrIgnore.mpr (Or.inr rfl)

/-- `record_synced_outcome`: stub the parents where they are missing, then
insert the outcome, which can no longer fail. -/
def recordSyncedOutcome (s : SharedState) (outcome : JobOutcome W) (now : Int64) : SharedState :=
  let s₁ := s.insertTask (stubTask outcome)
  let s₂ := s₁.insertResult (stubResult outcome) (insertTask_contains s (stubTask outcome))
  s₂.insertOutcome (outcomeRow x outcome now)
    ⟨insertTask_contains s (stubTask outcome), Keyed.contains_insertOrIgnore.mpr (Or.inr rfl)⟩

/-- `apply_reputation_delta`: append to the log. -/
def applyReputationDelta (s : SharedState) (peer : PeerId) (delta : Int32) (reason : String)
    (relatedHash : Option ContentHash) (now : Int64) : SharedState :=
  { s with reputationLog := s.reputationLog ++
      [{ peer, delta := delta.toInt, reason, relatedHash, appliedAt := now }] }

/-- `upsert_governance_rule`. -/
def upsertGovernanceRule (s : SharedState) (ruleName ruleValue : String) (proposer : PeerId)
    (approvers : List PeerId) (now : Int64) : SharedState :=
  let row : GovernanceRow :=
    { ruleName, ruleValue, proposedAt := now, activatedAt := now, proposer,
      approvers := x.approversCbor (approvers.map PeerId.toBytes) }
  if s.governanceRules.contains ruleName then
    { s with governanceRules := s.governanceRules.mapRows row.update row.update_ruleName }
  else { s with governanceRules := s.governanceRules.insertOrIgnore row }

/-- `apply_delta`: check the envelope, then write what it carries. -/
def applyDelta (s : SharedState) (delta : StateDelta W) (signerPubkey : VerifyingKey)
    (now : Int64) : Except StoreError SharedState :=
  match verifyDelta x delta signerPubkey with
  | .error e => .error (.badSignature e)
  | .ok () =>
    match delta.kind with
    | .outcome o => s.recordOutcome x o now
    | .reputation peer d reason relatedHash =>
      .ok (s.applyReputationDelta peer d reason relatedHash now)
    | .governanceRule ruleName ruleValue proposer approvers =>
      .ok (s.upsertGovernanceRule x ruleName ruleValue proposer approvers now)

/-! ## The queries -/

/-- `governance_rule`: the value set for a name. -/
def governanceRule (s : SharedState) (name : String) : Option String :=
  (s.governanceRules.find? name).map (·.ruleValue)

/-- `reputation_of`: the sum of the deltas of a peer. -/
def reputationOf (s : SharedState) (peer : PeerId) : Int :=
  ((s.reputationLog.filter (·.peer = peer)).map (·.delta)).sum

/-- The rows of one result, by `verified_at`. -/
def verificationRowsOf (s : SharedState) (resultHash : ContentHash) : List VerificationRow :=
  sortByKey (fun r => r.verifiedAt.toInt) (s.verifications.rows.filter (·.resultHash = resultHash))

/-- `verifications_for_result`: the stored bodies by `verified_at`, decoded; an
undecodable body fails the query. -/
def verificationsForResult (s : SharedState) (resultHash : ContentHash) :
    Except StoreError (List JobVerification) :=
  (s.verificationRowsOf resultHash).mapM fun r =>
    okOr (x.verificationCbor.decode r.verificationCbor) (.cborDecode "verification_cbor")

/-! ## What the writers do -/

variable {x} {s s' : SharedState} {now : Int64}

/-- `INSERT OR IGNORE` with a check of the foreign keys succeeds in two ways. -/
theorem ok_of_checked {p q : Prop} [Decidable p] [Decidable q] {t t' : SharedState}
    {f : q → SharedState} {e : StoreError}
    (h : (if p then .ok t else if hq : q then .ok (f hq) else .error e : Except StoreError _) =
      .ok t') : (p ∧ t' = t) ∨ ∃ hq, t' = f hq := by
  split at h
  · next hp => exact Or.inl ⟨hp, (Except.ok.inj h).symm⟩
  · split at h
    · next hq => exact Or.inr ⟨hq, (Except.ok.inj h).symm⟩
    · cases h

theorem recordResult_ok {r : JobResult} (h : s.recordResult x r now = .ok s') :
    s'.results = s.results.insertOrIgnore (resultRow x r now) ∧ s'.tasks = s.tasks ∧
      s'.verifications = s.verifications ∧ s'.outcomes = s.outcomes ∧
      s'.reputationLog = s.reputationLog := by
  rcases ok_of_checked h with ⟨hc, rfl⟩ | ⟨hparent, rfl⟩
  · exact ⟨(Keyed.insertOrIgnore_of_contains hc).symm, rfl, rfl, rfl, rfl⟩
  · exact ⟨rfl, rfl, rfl, rfl, rfl⟩

theorem recordResult_isOk {r : JobResult} :
    (∃ s', s.recordResult x r now = .ok s') ↔
      s.results.contains (r.contentHash x) = true ∨ s.tasks.contains r.specHash = true := by
  have hkey : (resultRow x r now).resultHash = r.contentHash x := rfl
  have hfk : (resultRow x r now).specHash = r.specHash := rfl
  by_cases hc : s.results.contains (r.contentHash x) = true
  · simp [recordResult, hkey, hc]
  · by_cases ht : s.tasks.contains r.specHash = true <;>
      simp [recordResult, hkey, hfk, hc, ht]

theorem recordVerification_ok {v : JobVerification} (h : s.recordVerification x v now = .ok s') :
    s'.verifications = s.verifications.insertOrIgnore (verificationRow x v now) ∧
      s'.tasks = s.tasks ∧ s'.results = s.results ∧ s'.outcomes = s.outcomes ∧
      s'.reputationLog = s.reputationLog := by
  rcases ok_of_checked h with ⟨hc, rfl⟩ | ⟨hparent, rfl⟩
  · exact ⟨(Keyed.insertOrIgnore_of_contains hc).symm, rfl, rfl, rfl, rfl⟩
  · exact ⟨rfl, rfl, rfl, rfl, rfl⟩

theorem recordVerification_isOk {v : JobVerification} :
    (∃ s', s.recordVerification x v now = .ok s') ↔
      s.verifications.contains (v.contentHash x) = true ∨
        s.results.contains v.resultHash = true := by
  have hkey : (verificationRow x v now).verificationHash = v.contentHash x := rfl
  have hfk : (verificationRow x v now).resultHash = v.resultHash := rfl
  by_cases hc : s.verifications.contains (v.contentHash x) = true
  · simp [recordVerification, hkey, hc]
  · by_cases hr : s.results.contains v.resultHash = true <;>
      simp [recordVerification, hkey, hfk, hc, hr]

theorem recordOutcome_ok {o : JobOutcome W} (h : s.recordOutcome x o now = .ok s') :
    s'.outcomes = s.outcomes.insertOrIgnore (outcomeRow x o now) ∧ s'.tasks = s.tasks ∧
      s'.results = s.results ∧ s'.verifications = s.verifications ∧
      s'.reputationLog = s.reputationLog := by
  rcases ok_of_checked h with ⟨hc, rfl⟩ | ⟨hparent, rfl⟩
  · exact ⟨(Keyed.insertOrIgnore_of_contains hc).symm, rfl, rfl, rfl, rfl⟩
  · exact ⟨rfl, rfl, rfl, rfl, rfl⟩

theorem recordOutcome_isOk {o : JobOutcome W} :
    (∃ s', s.recordOutcome x o now = .ok s') ↔
      s.outcomes.contains (o.contentHash x) = true ∨
        (s.tasks.contains o.specHash = true ∧ s.results.contains o.resultHash = true) := by
  have hkey : (outcomeRow x o now).outcomeHash = o.contentHash x := rfl
  have hspec : (outcomeRow x o now).specHash = o.specHash := rfl
  have hres : (outcomeRow x o now).resultHash = o.resultHash := rfl
  by_cases hc : s.outcomes.contains (o.contentHash x) = true
  · simp [recordOutcome, hkey, hc]
  · by_cases hp : s.tasks.contains o.specHash = true ∧ s.results.contains o.resultHash = true <;>
      simp [recordOutcome, hkey, hspec, hres, hc, hp]

/-- Decoding every row succeeds with `vs` exactly when `vs` are the decoded rows. -/
theorem mapM_okOr_eq_ok_iff {R V : Type} (f : R → Option V) (e : StoreError)
    (rows : List R) (vs : List V) :
    (rows.mapM fun r => okOr (f r) e) = .ok vs ↔ rows.map f = vs.map some := by
  induction rows generalizing vs with
  | nil => cases vs <;> simp [pure, Except.pure]
  | cons r rows ih =>
    rw [List.mapM_cons]
    cases hf : f r with
    | none => cases vs <;> simp [hf, bind, Except.bind]
    | some v =>
      -- the head decodes, so the outcome is that of the tail
      cases hm : rows.mapM (fun r => okOr (f r) e) with
      | error e' => cases vs <;> simp [bind, Except.bind, ← ih, hm, hf]
      | ok us => cases vs <;> simp [bind, Except.bind, pure, Except.pure, ← ih, hm, hf]

/-- Rows that all decode are decoded. -/
theorem mapM_okOr_of_isSome {R V : Type} {f : R → Option V} {rows : List R}
    (h : ∀ r ∈ rows, (f r).isSome = true) (e : StoreError) :
    (rows.mapM fun r => okOr (f r) e) = .ok (rows.filterMap f) := by
  rw [mapM_okOr_eq_ok_iff, List.map_filterMap_some_eq_filter_map_isSome]
  refine (List.filter_eq_self.mpr fun o ho => ?_).symm
  obtain ⟨r, hr, rfl⟩ := List.mem_map.mp ho
  exact h r hr

/-- The query succeeds with `vs` exactly when `vs` are the decoded bodies. -/
theorem verificationsForResult_eq_ok_iff {resultHash : ContentHash} {vs : List JobVerification} :
    s.verificationsForResult x resultHash = .ok vs ↔
      (s.verificationRowsOf resultHash).map
        (fun r => x.verificationCbor.decode r.verificationCbor) = vs.map some :=
  mapM_okOr_eq_ok_iff _ _ _ _

end Writers

end SharedState

end Parseh.Shared
