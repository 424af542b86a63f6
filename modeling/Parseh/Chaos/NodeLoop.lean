import Parseh.Miner.StateSync
import Parseh.Verify.Verifier

/-!
# A node of the chaos mesh (`parseh-chaos`, `scenario.rs`, `malicious_verifier.rs`)

The harness node runs the whole protocol: it submits and executes specs, verifies
results, collects votes, finalises, gossips its outcomes and rewards as signed
deltas, applies the deltas of others and answers state sync.  `NodeLoop` is its
state and `NodeLoop.step` one turn of its event loop.

A handler that fails stops where it failed and keeps what it has written so far;
it returns `false` beside the node.  Four fields are histories the program never
reads: `outbox`, everything handed to gossipsub, `ballots`, every vote the node
signed and what it judged, `offered`, every outcome handed to the store, and
`closed`, every quorum that was finalised.
-/

namespace Parseh.Chaos

open Parseh.Lib Parseh.Wire Parseh.Core Parseh.Shared Parseh.Verify Parseh.Miner

/-! ## Parameters and parts -/

def defaultGroup : UInt8 := 0
def reputationAwardExecutor : Int32 := 10
def reputationAwardVerifier : Int32 := 5
def reputationPenaltyFalseDispute : Int32 := -5

/-- The reputation every harness vote is weighted with. -/
def harnessReputation : UInt32 := 100

inductive MaliciousMode
  | alwaysAgreed | alwaysDisagreed | random | raceToVoteFirst | rubberStamp
  deriving DecidableEq

structure TaskState (W : Type) where
  specHash : ContentHash
  spec : JobSpec
  observedResult : Option JobResult
  quorum : Option (Quorum W)
  finalised : Bool
  selfExecuted : Bool
  selfVerified : Bool

/-- What the node publishes, with the topic it is published on. -/
inductive Published (W : Type)
  | spec (spec : JobSpec)
  | result (result : JobResult)
  | verification (v : JobVerification)
  | delta (delta : StateDelta W)

/-- A vote the node signed, and what it was cast on. -/
structure Ballot where
  vote : JobVerification
  spec : JobSpec
  result : JobResult

/-- One quorum the node finalised, with the task as the node knew it. -/
structure Closing (W : Type) where
  spec : JobSpec
  result : Option JobResult
  quorum : Quorum W
  finalised : FinalisedQuorum W

/-- The key a reputation delta is applied under. -/
abbrev RepKey := PeerId × Option ContentHash × String

structure NodeLoop (W : Type) where
  shared : SharedState
  registry : PeerRegistry
  tasks : Keyed (TaskState.specHash (W := W))
  reputationLocal : PeerId → Int
  appliedRepKeys : List RepKey
  readiness : ReadinessState
  verificationsByResult : ContentHash → UInt32
  syncedOutcomes : List ContentHash
  outbox : List (Published W)
  ballots : List Ballot
  offered : List (JobOutcome W)
  closed : List (Closing W)

/-- The node's identity, its quorum parameters and its mode. -/
structure Ctx (W : Type) extends Miner.Ctx W where
  quorumConfig : QuorumConfig W
  malicious : Option MaliciousMode

variable {W : Type}

namespace NodeLoop

/-- The node when its loop starts: an empty database and its own identity. -/
def start (c : Ctx W) (clock : Clock) : NodeLoop W where
  shared := .empty
  registry := PeerRegistry.new.recordIdentity
    { peerId := c.localPeerId
      verifyingKey := c.verifyingKey
      reachableAddrs := []
      firstSeen := unixNow clock.wall
      lastSeen := unixNow clock.wall
      readiness := .initialised }
  tasks := Keyed.empty
  reputationLocal := fun _ => 0
  appliedRepKeys := []
  readiness := .connected
  verificationsByResult := fun _ => 0
  syncedOutcomes := []
  outbox := []
  ballots := []
  offered := []
  closed := []

/-! ## Recording -/

/-- The entry of a spec that is seen for the first time. -/
def freshTask (x : Externals W) (spec : JobSpec) : TaskState W where
  specHash := spec.contentHash x
  spec := spec
  observedResult := none
  quorum := none
  finalised := false
  selfExecuted := false
  selfVerified := false

/-- `tasks.get_mut(hash)`. -/
def updateTask (n : NodeLoop W) (hash : ContentHash) (f : TaskState W → TaskState W)
    (hf : ∀ t, (f t).specHash = t.specHash) : NodeLoop W :=
  { n with tasks := n.tasks.mapRows (fun t => if t.specHash = hash then f t else t) (by
      intro t
      split
      · exact hf t
      · rfl) }

def publish (n : NodeLoop W) (p : Published W) : NodeLoop W :=
  { n with outbox := n.outbox ++ [p] }

/-- `record_spec`. -/
def recordSpec (c : Ctx W) (clock : Clock) (n : NodeLoop W) (spec : JobSpec) : NodeLoop W :=
  { n with
    shared := n.shared.recordSpec c.x spec (Clock.unixI64 clock)
    tasks := n.tasks.insertOrIgnore (freshTask c.x spec) }

/-- The first result of a task is observed and its quorum opened; later ones are
only stored. -/
def observe (c : Ctx W) (clock : Clock) (result : JobResult) (t : TaskState W) : TaskState W :=
  if t.observedResult.isNone then
    { t with
      observedResult := some result
      quorum := some (Quorum.new c.quorumConfig result.specHash (result.contentHash c.x) clock.wall) }
  else t

theorem observe_specHash (c : Ctx W) (clock : Clock) (result : JobResult) (t : TaskState W) :
    (observe c clock result t).specHash = t.specHash := by
  unfold observe
  split <;> rfl

/-- `record_result`: one whose spec is not there yet is dropped. -/
def recordResult (c : Ctx W) (clock : Clock) (n : NodeLoop W) (result : JobResult) : NodeLoop W :=
  match n.shared.recordResult c.x result (Clock.unixI64 clock) with
  | .error _ => n
  | .ok shared =>
    { n with shared }.updateTask result.specHash (observe c clock result)
      (observe_specHash c clock result)

/-- `record_outcome`; `false` on a missing parent. -/
def recordOutcome (c : Ctx W) (clock : Clock) (n : NodeLoop W) (outcome : JobOutcome W) :
    Bool × NodeLoop W :=
  match n.shared.recordOutcome c.x outcome (Clock.unixI64 clock) with
  | .error _ => (false, { n with offered := n.offered ++ [outcome] })
  | .ok shared => (true, { n with shared, offered := n.offered ++ [outcome] })

/-- The flag is set before the outcome is stored. -/
def closeTask (n : NodeLoop W) (t : TaskState W) (q : Quorum W) (f : FinalisedQuorum W) :
    NodeLoop W :=
  { n.updateTask t.specHash (fun t => { t with finalised := true }) (fun _ => rfl) with
    closed := n.closed ++ [⟨t.spec, t.observedResult, q, f⟩] }

section Quorums

variable [WeightArith W]

/-- `try_finalise_quorum`. -/
def tryFinaliseQuorum (c : Ctx W) (clock : Clock) (n : NodeLoop W) (specHash : ContentHash) :
    Bool × NodeLoop W :=
  match n.tasks.find? specHash with
  | none => (true, n)
  | some t =>
    match t.finalised, t.quorum with
    | false, some q =>
      match q.tryFinalise c.x clock.wall (unixNow clock.wall) c.localPeerId c.signingKey with
      | none => (true, n)
      | some f => (n.closeTask t q f).recordOutcome c clock f.outcome
    | _, _ => (true, n)

/-- Does the task collect votes on this result? -/
def tracks (x : Externals W) (resultHash : ContentHash) (t : TaskState W) : Bool :=
  t.observedResult.any (fun r => r.contentHash x = resultHash) && t.quorum.isSome

/-- Is the error of `add_verification` one the node only logs? -/
def ignored : VerifyError → Bool
  | .internal msg =>
    decide ("duplicate".toList <:+: msg.toList) || decide ("result_hash".toList <:+: msg.toList)
  | _ => false

/-- The vote is in the store: count it and hand it to the quorum of its result. -/
def slotVerification (c : Ctx W) (clock : Clock) (n : NodeLoop W) (v : JobVerification) :
    Bool × NodeLoop W :=
  match n.tasks.rows.find? (tracks c.x v.resultHash) with
  | none => (true, n)
  | some t =>
    match n.registry.verifyingKey v.verifier, t.quorum with
    | some key, some q =>
      match q.addVerification c.x v harnessReputation key with
      | (.error e, _) => (ignored e, n)
      | (.ok (), q') =>
        let n₁ := n.updateTask t.specHash (fun t => { t with quorum := some q' }) (fun _ => rfl)
        if t.finalised then (true, n₁) else n₁.tryFinaliseQuorum c clock t.specHash
    | _, _ => (true, n)

/-- `record_verification`: one whose result is not there yet is dropped. -/
def recordVerification (c : Ctx W) (clock : Clock) (n : NodeLoop W) (v : JobVerification) :
    Bool × NodeLoop W :=
  match n.shared.recordVerification c.x v (Clock.unixI64 clock) with
  | .error _ => (true, n)
  | .ok shared =>
    { n with
      shared
      verificationsByResult := fun h =>
        if h = v.resultHash then n.verificationsByResult h + 1 else n.verificationsByResult h
      }.slotVerification c clock v

end Quorums

/-! ## Reputation and outcomes -/

/-- `apply_reputation`: once for each peer, related hash and reason. -/
def applyReputation (clock : Clock) (n : NodeLoop W) (peer : PeerId) (delta : Int32)
    (reason : String) (relatedHash : Option ContentHash) : NodeLoop W :=
  if (peer, relatedHash, reason) ∈ n.appliedRepKeys then n
  else
    { n with
      shared := n.shared.applyReputationDelta peer delta reason relatedHash (Clock.unixI64 clock)
      appliedRepKeys := n.appliedRepKeys ++ [(peer, relatedHash, reason)]
      reputationLocal := fun p =>
        if p = peer then n.reputationLocal p + delta.toInt else n.reputationLocal p }

/-- The reward or penalty of one stored vote. -/
def settleVote (clock : Clock) (outcomeHash : ContentHash) (n : NodeLoop W) (v : JobVerification) :
    NodeLoop W :=
  match v.verdict with
  | .agreed =>
    n.applyReputation clock v.verifier reputationAwardVerifier "verifier_consensus_reward"
      (some outcomeHash)
  | .disagreed _ =>
    n.applyReputation clock v.verifier reputationPenaltyFalseDispute
      "verifier_false_dispute_penalty" (some outcomeHash)
  | .abstained => n

/-- The rewards of a `Valid` outcome: the executor, then every stored vote. -/
def settle (x : Externals W) (clock : Clock) (n : NodeLoop W) (result : JobResult)
    (outcomeHash : ContentHash) : NodeLoop W :=
  let n₁ := n.applyReputation clock result.executor reputationAwardExecutor
    "executor_consensus_reward" (some outcomeHash)
  let verifications :=
    match n₁.shared.verificationsForResult x (result.contentHash x) with
    | .ok vs => vs
    | .error _ => []
  verifications.foldl (settleVote clock outcomeHash) n₁

/-- `outcome_for_spec`: the outcome of a spec that was stored last, decoded. -/
def outcomeForSpec (x : Externals W) (s : SharedState) (specHash : ContentHash) :
    Except StoreError (Option (JobOutcome W)) :=
  match (sortByKey (fun r : OutcomeRow => -r.observedAt.toInt)
      (s.outcomes.rows.filter (·.specHash = specHash))).head? with
  | none => .ok none
  | some row => (okOr (x.outcomeCbor.decode row.outcomeCbor) (.cborDecode "outcome_cbor")).map some

def isValid : OutcomeVerdict W → Bool
  | .valid .. => true
  | _ => false

/-- Sign a delta of this node and publish it. -/
def publishDelta (c : Ctx W) (clock : Clock) (n : NodeLoop W) (kind : DeltaKind W) : NodeLoop W :=
  n.publish (.delta
    (signDelta c.x (StateDelta.unsigned kind c.localPeerId (unixNow clock.wall)) c.signingKey))

/-- Gossip an outcome and, if it is valid, the executor's reward. -/
def announce (c : Ctx W) (clock : Clock) (n : NodeLoop W) (executor : PeerId)
    (outcome : JobOutcome W) : NodeLoop W :=
  let n₁ := n.publishDelta c clock (.outcome outcome)
  if isValid outcome.verdict then
    n₁.publishDelta c clock (.reputation executor reputationAwardExecutor
      "executor_consensus_reward" (some (outcome.contentHash c.x)))
  else n₁

/-- `publish_outcome_and_rep`: whatever outcome the store now gives for the spec is
recorded again, settled and gossiped. -/
def publishOutcomeAndRep (c : Ctx W) (clock : Clock) (n : NodeLoop W) (specHash : ContentHash) :
    Bool × NodeLoop W :=
  match n.tasks.find? specHash with
  | none => (true, n)
  | some t =>
    match t.finalised, t.observedResult with
    | true, some result =>
      match outcomeForSpec c.x n.shared specHash with
      | .error _ => (false, n)
      | .ok none => (true, n)
      | .ok (some outcome) =>
        match n.recordOutcome c clock outcome with
        | (false, n₁) => (false, n₁)
        | (true, n₁) =>
          let n₂ := if isValid outcome.verdict then
              n₁.settle c.x clock result (outcome.contentHash c.x) else n₁
          (true, n₂.announce c clock result.executor outcome)
    | _, _ => (true, n)

/-! ## Execution and verification -/

/-- `ChaosExecutor`: SHA-256 of the prompt and the little-endian seed. -/
def chaosExecutor (x : Externals W) : LocalExecutor :=
  fun spec => .ok (buildExecutorResult x spec)

/-- `pick_executor`. -/
def pickExecutor (spec : JobSpec) (registry : PeerRegistry) (localPeer : PeerId) : Option PeerId :=
  (sortByKey PeerId.key (eligible localPeer spec registry)).head?

/-- `malicious_verdict`; `coin` is the random bit. -/
def maliciousVerdict (x : Externals W) (coin : Bool) (result : JobResult) :
    MaliciousMode → VerifierVerdict
  | .alwaysAgreed | .raceToVoteFirst | .rubberStamp => .agreed
  | .alwaysDisagreed => .disagreed (result.contentHash x)
  | .random => if coin then .agreed else .disagreed (result.contentHash x)

/-- The verdict of an honest node: re-execute and compare. -/
def honestVerdict (x : Externals W) (spec : JobSpec) (result : JobResult) :
    Except VerifyError VerifierVerdict :=
  match deterministicMethod x (chaosExecutor x) spec result with
  | .error e => .error e
  | .ok outcome =>
    if outcome.matched then .ok .agreed
    else .ok (.disagreed (outcome.evidenceHash.getD ContentHash.zero))

/-- The verdict this node signs on a result. -/
def verdictOn (c : Ctx W) (coin : Bool) (spec : JobSpec) (result : JobResult) :
    Except VerifyError VerifierVerdict :=
  match c.malicious with
  | none => honestVerdict c.x spec result
  | some mode => .ok (maliciousVerdict c.x coin result mode)

/-- The result this node signs for a spec. -/
def ownResult (c : Ctx W) (clock : Clock) (spec : JobSpec) : JobResult :=
  (JobResult.newSignedAt c.x (spec.contentHash c.x) c.localPeerId (unixNow clock.wall)
    { verifierMethod := .deterministic, executionTimeMs := 1, modelUsed := some "chaos-sha256",
      inferenceTokenCount := none }
    (buildExecutorResult c.x spec) c.signingKey).1

/-- The vote this node signs on a result. -/
def ownVote (c : Ctx W) (clock : Clock) (result : JobResult) (verdict : VerifierVerdict) :
    JobVerification :=
  (JobVerification.newSignedAt c.x (result.contentHash c.x) c.localPeerId verdict .deterministic
    (unixNow clock.wall) c.signingKey).1

/-- Execute an elected spec, once. -/
def executeSpec (c : Ctx W) (clock : Clock) (n : NodeLoop W) (spec : JobSpec) : NodeLoop W :=
  let specHash := spec.contentHash c.x
  match n.tasks.find? specHash with
  | some t =>
    if t.selfExecuted then n
    else
      let n₁ := n.updateTask specHash (fun t => { t with selfExecuted := true }) (fun _ => rfl)
      (n₁.recordResult c clock (ownResult c clock spec)).publish (.result (ownResult c clock spec))
  | none =>
    (n.recordResult c clock (ownResult c clock spec)).publish (.result (ownResult c clock spec))

section Dispatch

variable [WeightArith W]

/-- Sign a verdict on the result and mark the task. -/
def signVote (c : Ctx W) (clock : Clock) (n : NodeLoop W) (spec : JobSpec) (result : JobResult)
    (verdict : VerifierVerdict) : NodeLoop W :=
  { n.updateTask result.specHash (fun t => { t with selfVerified := true }) (fun _ => rfl) with
    ballots := n.ballots ++ [⟨ownVote c clock result verdict, spec, result⟩] }

/-- Sign a verdict on the result, record it and publish it. -/
def castVote (c : Ctx W) (clock : Clock) (n : NodeLoop W) (spec : JobSpec) (result : JobResult)
    (verdict : VerifierVerdict) : NodeLoop W :=
  let v := ownVote c clock result verdict
  match (n.signVote c clock spec result verdict).recordVerification c clock v with
  | (false, n₁) => n₁
  | (true, n₁) => n₁.publish (.verification v)

/-- Vote on a recorded result, once for each task and never on an own one. -/
def verifyResult (c : Ctx W) (clock : Clock) (coin : Bool) (n : NodeLoop W) (result : JobResult) :
    NodeLoop W :=
  match n.tasks.find? result.specHash with
  | none => n
  | some t =>
    if t.selfVerified || result.executor = c.localPeerId then n
    else
      match verdictOn c coin t.spec result with
      | .error _ => n
      | .ok verdict => n.castVote c clock t.spec result verdict

/-- The finalised task whose observed result the vote is on. -/
def finalisedTaskOf (x : Externals W) (n : NodeLoop W) (resultHash : ContentHash) :
    Option (TaskState W) :=
  n.tasks.rows.find? fun t =>
    t.finalised && t.observedResult.any fun r => r.contentHash x = resultHash

/-! ## Dispatch -/

/-- `parseh.tasks.v1`. -/
def handleSpec (c : Ctx W) (clock : Clock) (n : NodeLoop W) (data : Bytes) : NodeLoop W :=
  match c.x.specCbor.decode data with
  | none => n
  | some spec =>
    match n.registry.verifyingKey spec.submitter with
    | none => n
    | some key =>
      match spec.verifySignature c.x key with
      | .error _ => n
      | .ok () =>
        let n₁ := n.recordSpec c clock spec
        if spec.submitter = c.localPeerId then n₁
        else if pickExecutor spec n₁.registry c.localPeerId = some c.localPeerId then
          n₁.executeSpec c clock spec
        else n₁

/-- `parseh.verify.v1`, a result. -/
def handleResult (c : Ctx W) (clock : Clock) (coin : Bool) (n : NodeLoop W) (body : Bytes) :
    NodeLoop W :=
  match c.x.resultCbor.decode body with
  | none => n
  | some result =>
    match n.registry.verifyingKey result.executor with
    | none => n
    | some key =>
      match result.verifySignature c.x key with
      | .error _ => n
      | .ok () => (n.recordResult c clock result).verifyResult c clock coin result

/-- `parseh.verify.v1`, a vote. -/
def handleVerification (c : Ctx W) (clock : Clock) (n : NodeLoop W) (body : Bytes) : NodeLoop W :=
  match c.x.verificationCbor.decode body with
  | none => n
  | some v =>
    match n.registry.verifyingKey v.verifier with
    | none => n
    | some key =>
      match v.verifySignature c.x key with
      | .error _ => n
      | .ok () =>
        match n.recordVerification c clock v with
        | (false, n₁) => n₁
        | (true, n₁) =>
          match n₁.finalisedTaskOf c.x v.resultHash with
          | none => n₁
          | some t => (n₁.publishOutcomeAndRep c clock t.specHash).2

/-- `parseh.state-deltas.v1`: outcomes and rewards of an authenticated delta are
applied, governance rules are not. -/
def handleDelta (c : Ctx W) (clock : Clock) (n : NodeLoop W) (data : Bytes) : NodeLoop W :=
  match c.x.deltaCbor.decode data with
  | none => n
  | some delta =>
    match n.registry.verifyingKey delta.observer with
    | none => n
    | some key =>
      match verifyDelta c.x delta key with
      | .error _ => n
      | .ok () =>
        match delta.kind with
        | .outcome o =>
          { n with
            shared := n.shared.orKeep (n.shared.applyDelta c.x delta key (Clock.unixI64 clock))
            offered := n.offered ++ [o] }
        | .reputation peer d reason relatedHash => n.applyReputation clock peer d reason relatedHash
        | .governanceRule .. => n

/-- `dispatch`. -/
def dispatch (c : Ctx W) (clock : Clock) (coin : Bool) (n : NodeLoop W) (topic : Topic)
    (data : Bytes) : NodeLoop W :=
  match topic with
  | .caps =>
    match c.x.advertisementCbor.decode data with
    | none => n
    | some ad => { n with registry := (n.registry.upsert c.x ad).2 }
  | .tasks => n.handleSpec c clock data
  | .verify =>
    match data with
    | [] => n
    | tag :: body =>
      if tag = tagJobResult then n.handleResult c clock coin body
      else if tag = tagJobVerification then n.handleVerification c clock body
      else n
  | .stateDeltas => n.handleDelta c clock data

/-! ## Ticks and state sync -/

/-- Is the task with this hash finalised? -/
def isFinalised (n : NodeLoop W) (specHash : ContentHash) : Bool :=
  (n.tasks.find? specHash).any (·.finalised)

/-- One turn of the first loop of the tick; `done` collects what it closed. -/
def finaliseOne (c : Ctx W) (clockOf : ContentHash → Clock) (a : NodeLoop W × List ContentHash)
    (specHash : ContentHash) : NodeLoop W × List ContentHash :=
  if a.1.isFinalised specHash then a
  else
    match a.1.tryFinaliseQuorum c (clockOf specHash) specHash with
    | (false, n) => (n, a.2)
    | (true, n) => (n, if n.isFinalised specHash then a.2 ++ [specHash] else a.2)

/-- The finalise tick; `clockOf` reads the clock when a task is handled. -/
def finaliseTick (c : Ctx W) (clockOf : ContentHash → Clock) (n : NodeLoop W) : NodeLoop W :=
  let pending := (n.tasks.rows.filter fun t => !t.finalised && t.quorum.isSome).map (·.specHash)
  let (n₁, toPublish) := pending.foldl (finaliseOne c clockOf) (n, [])
  toPublish.foldl (fun n h => (n.publishOutcomeAndRep c (clockOf h) h).2) n₁

/-- `submit_spec`; the signature is the submitter's own. -/
def submitSpec (c : Ctx W) (clock : Clock) (n : NodeLoop W) (spec : JobSpec) : NodeLoop W :=
  (n.recordSpec c clock spec).publish (.spec spec)

/-- `publish_caps`, as far as the node changes: a first successful publication
makes it ready. -/
def publishCaps (n : NodeLoop W) (published : Bool) : NodeLoop W :=
  match published, n.readiness with
  | true, .initialised | true, .connected | true, .listening => { n with readiness := .ready }
  | _, _ => n

/-- `build_state_sync_response`. -/
def buildStateSyncResponse (c : Ctx W) (clock : Clock) (n : NodeLoop W)
    (request : StateSyncRequest) : StateSyncResponse W :=
  let answer := fun outcomes truncated =>
    StateSyncResponse.newSigned c.x outcomes truncated c.localPeerId (unixNow clock.wall)
      c.signingKey
  match n.registry.verifyingKey request.requester with
  | none => answer [] false
  | some key =>
    match request.verifySignature c.x key with
    | .error _ => answer [] false
    | .ok () =>
      let limit := min request.maxOutcomes.toNat stateSyncHardCeiling.toNat
      if limit = 0 then answer [] false
      else
        match n.shared.outcomesSince c.x request.sinceUnix (UInt64.ofNat (limit + 1)) with
        | .error _ => answer [] false
        | .ok outcomes => answer (outcomes.take limit) (limit < outcomes.length)

/-- Persist one synced outcome and mark its spec, if its signature holds. -/
def applySynced (c : Ctx W) (clock : Clock) (n : NodeLoop W) (outcome : JobOutcome W) :
    NodeLoop W :=
  if syncAccepted c.toCtx n.registry outcome then
    { n with
      shared := n.shared.recordSyncedOutcome c.x outcome (Clock.unixI64 clock)
      syncedOutcomes := n.syncedOutcomes ++ [outcome.specHash]
      offered := n.offered ++ [outcome] }
  else n

/-- `apply_state_sync_response`. -/
def applyStateSyncResponse (c : Ctx W) (clock : Clock) (n : NodeLoop W) (r : StateSyncResponse W) :
    NodeLoop W :=
  if syncEnvelopeOk c.toCtx n.registry r then r.outcomes.foldl (applySynced c clock) n else n

/-! ## The event loop -/

inductive Event (W : Type)
  | submit (spec : JobSpec)
  | gossip (source : PeerId) (topic : Topic) (data : Bytes) (coin : Bool)
  | capsTick (published : Bool)
  | finaliseTick (clockOf : ContentHash → Clock)
  | newListenAddr
  | connectionEstablished
  | stateSyncResponse (r : StateSyncResponse W)

/-- An event and the clock reading it is handled at. -/
structure Turn (W : Type) where
  clock : Clock
  event : Event W

/-- One turn of the loop.  `groupOf` is the partition table; gossip from another
group is dropped. -/
def step (c : Ctx W) (groupOf : PeerId → UInt8) (n : NodeLoop W) (a : Turn W) : NodeLoop W :=
  match a.event with
  | .submit spec => n.submitSpec c a.clock spec
  | .gossip source topic data coin =>
    if groupOf c.localPeerId = groupOf source then n.dispatch c a.clock coin topic data else n
  | .capsTick published => n.publishCaps published
  | .finaliseTick clockOf => n.finaliseTick c clockOf
  | .newListenAddr => { n with readiness := .listening }
  | .connectionEstablished =>
    if n.readiness = .connected then { n with readiness := .listening } else n
  | .stateSyncResponse r => n.applyStateSyncResponse c a.clock r

end Dispatch

/-! ## Snapshots -/

/-- `outcomes` of a snapshot: what the store holds for a finalised task or for a
synced spec. -/
def outcomeOf (x : Externals W) (n : NodeLoop W) (specHash : ContentHash) :
    Option (JobOutcome W) :=
  if (n.tasks.find? specHash).any (·.finalised) || specHash ∈ n.syncedOutcomes then
    match outcomeForSpec x n.shared specHash with
    | .ok o => o
    | .error _ => none
  else none

/-- `has_outcome_for_spec`. -/
def hasOutcomeForSpec (x : Externals W) (n : NodeLoop W) (specHash : ContentHash) : Bool :=
  (n.outcomeOf x specHash).isSome

end NodeLoop

end Parseh.Chaos
