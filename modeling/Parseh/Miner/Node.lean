import Parseh.Lib.Run
import Parseh.Core.PeerRegistry
import Parseh.Shared.Store
import Parseh.Verify.Quorum
import Parseh.Miner.Election
import Parseh.Miner.VerifyBuffer

/-!
# The miner's handlers (`miner`, `main.rs`)

The state of one node and every handler of its event loop that touches the
peer-key directory, the store, the open quorums or the outbound messages.  A
handler takes the clock reading it is run at; what it publishes is appended to
`outbox`.  `closed` is a history variable: what the finalise tick has closed,
never read by the program.

Each inbound path is cut in two: `admitSpec`, `admitJobResult` and
`admitVerification` decode, authenticate and record a message, and the second
half acts on what was admitted.
-/

namespace Parseh.Miner

open Parseh.Lib Parseh.Wire Parseh.Core Parseh.Shared Parseh.Verify

/-! ## Parameters and parts -/

def openQuorumsLruCap : Nat := 10000
def rateLimitWindowMs : Nat := 60000
def rateLimitMaxResultsPerWindow : UInt32 := 100
def tagJobResult : UInt8 := 0x02
def tagJobVerification : UInt8 := 0x03
def probationaryRepFloor : UInt32 := 10

structure RateBucket where
  windowStartedAt : UInt64 := 0
  count : UInt32 := 0

/-- `record_with_cap`: is the publisher over the cap?  The window restarts when
it has expired. -/
def RateBucket.recordWithCap (b : RateBucket) (nowSecs : UInt64) (cap : UInt32) :
    Bool × RateBucket :=
  let b₁ : RateBucket :=
    if nowSecs.toNat - b.windowStartedAt.toNat ≥ rateLimitWindowMs / 1000 then
      { windowStartedAt := nowSecs, count := 0 }
    else b
  let count := UInt32.ofNat (min (b₁.count.toNat + 1) (2 ^ 32 - 1))
  (count > cap, { b₁ with count })

def RateBucket.record (b : RateBucket) (nowSecs : UInt64) : Bool × RateBucket :=
  b.recordWithCap nowSecs rateLimitMaxResultsPerWindow

structure OpenQuorum (W : Type) where
  quorum : Quorum W
  finalised : Bool

/-- A gossipsub message; strict signing authenticates `source`. -/
structure Message where
  source : Option PeerId
  data : Bytes

inductive Topic
  | caps | tasks | verify | stateDeltas
  deriving DecidableEq

/-- What the node publishes. -/
inductive Outbound (W : Type)
  | jobResult (result : JobResult)
  | stateDelta (delta : StateDelta W)

/-- One quorum closed by a finalise tick, and the peers the tick rewarded. -/
structure Closing (W : Type) where
  resultHash : ContentHash
  quorum : Quorum W
  finalised : FinalisedQuorum W
  rewarded : List PeerId
  clock : Clock

structure Node (W : Type) where
  peerRegistry : PeerRegistry
  shared : SharedState
  quorums : LruCache ContentHash (OpenQuorum W)
  rateLimit : PeerId → RateBucket
  verifyBuffer : VerifyBuffer
  readiness : ReadinessTracker
  outbox : List (Outbound W)
  closed : List (Closing W)

/-- The node's own identity and the code outside the repository. -/
structure Ctx (W : Type) where
  x : Externals W
  localPeerId : PeerId
  signingKey : SigningKey
  verifyingKey : VerifyingKey

/-- The `i64` timestamp rows are stamped with. -/
def Clock.unixI64 (clock : Clock) : Int64 := (unixNow clock.wall).toInt64

variable {W : Type}

/-- The node when its event loop starts: only its own identity is known. -/
def Node.start (c : Ctx W) (clock : Clock) (listeners : List Multiaddr) (shared : SharedState) :
    Node W where
  peerRegistry := PeerRegistry.new.recordIdentity
    { peerId := c.localPeerId
      verifyingKey := c.verifyingKey
      reachableAddrs := listeners
      firstSeen := unixNow clock.wall
      lastSeen := unixNow clock.wall
      readiness := ReadinessTracker.new.markConnected.state }
  shared := shared
  quorums := LruCache.new openQuorumsLruCap
  rateLimit := fun _ => {}
  verifyBuffer := VerifyBuffer.new
  readiness := ReadinessTracker.new.markConnected
  outbox := []
  closed := []

/-! ## `parseh.caps.v1` -/

/-- The advertisement a legacy payload is bridged to. -/
def legacyAdvertisement (source : PeerId) (caps : NodeCapabilities) (now : UInt64) :
    CapabilityAdvertisement where
  peerId := source
  version := 1
  services := (if caps.relay then [.relay] else []) ++ (if caps.inference then [.inference] else [])
  inference := if caps.inference then
      some { models := caps.modelTags, contextSize := 0, estimatedTokensPerSec := 0 }
    else none
  relay := if caps.relay then
      some { bandwidthMbps := caps.uplinkMbps, transportKinds := [] }
    else none
  storage := none
  networkAddress := "/ip4/0.0.0.0/tcp/0"
  signedAt := now
  ttlSeconds := 300
  verifyingKeyBytes := Array32.replicate 0
  reachableAddrs := []
  readiness := .ready
  hasExternalInternet := false
  bandwidthMbpsExternal := none

/-- `handle_caps_message`: CBOR first, the legacy JSON only with a source. -/
def handleCapsMessage (x : Externals W) (clock : Clock) (reg : PeerRegistry) (m : Message) :
    PeerRegistry :=
  match x.advertisementCbor.decode m.data with
  | some ad => (reg.upsert x ad).2
  | none =>
    match x.legacyCapsJson m.data, m.source with
    | some caps, some source =>
      (reg.upsert x (legacyAdvertisement source caps (unixNow clock.wall))).2
    | _, _ => reg

/-! ## `parseh.tasks.v1` -/

/-- Keep a message whose publisher is unknown for a later try. -/
def bufferMessage (clock : Clock) (n : Node W) (publisher : PeerId) (payload : Bytes)
    (tag : Option UInt8) : Node W :=
  { n with verifyBuffer :=
      (n.verifyBuffer.enqueue { publisher, payload, tag, receivedAt := clock.mono }).2 }

/-- Decode, authenticate and record a spec. -/
def admitSpec (c : Ctx W) (clock : Clock) (n : Node W) (data : Bytes) : Node W × Option JobSpec :=
  match c.x.specCbor.decode data with
  | none => (n, none)
  | some spec =>
    match n.peerRegistry.verifyingKey spec.submitter with
    | none => (bufferMessage clock n spec.submitter data none, none)
    | some key =>
      match spec.verifySignature c.x key with
      | .error _ => (n, none)
      | .ok () => ({ n with shared := n.shared.recordSpec c.x spec (Clock.unixI64 clock) }, some spec)

/-- `build_executor_result`: SHA-256 of the prompt and the little-endian seed. -/
def buildExecutorResult (x : Externals W) (spec : JobSpec) : Bytes :=
  let prompt := spec.inputs.promptText.getD ""
  let seed := spec.inputs.seed.getD 0
  (x.sha256 (prompt.toUTF8.toList ++ u64LeBytes seed)).bytes

/-- The result this node signs when it executes the spec itself. -/
def ownResult (c : Ctx W) (clock : Clock) (spec : JobSpec) : JobResult × ContentHash :=
  JobResult.newSignedAt c.x (spec.contentHash c.x) c.localPeerId (unixNow clock.wall)
    { verifierMethod := .deterministic, executionTimeMs := 1, modelUsed := some "echo-executor",
      inferenceTokenCount := none }
    (buildExecutorResult c.x spec) c.signingKey

section Quorums

variable [WeightArith W]

/-- The entry a fresh window starts from. -/
def freshQuorum (clock : Clock) (specHash resultHash : ContentHash) : OpenQuorum W :=
  { quorum := Quorum.new .standard specHash resultHash clock.wall, finalised := false }

/-- Execute an elected spec: record the result, open its quorum whatever was
there, publish the result. -/
def executeSpec (c : Ctx W) (clock : Clock) (n : Node W) (spec : JobSpec) : Node W :=
  let (result, resultHash) := ownResult c clock spec
  { n with
    shared := n.shared.orKeep (n.shared.recordResult c.x result (Clock.unixI64 clock))
    quorums := n.quorums.put resultHash (freshQuorum clock (spec.contentHash c.x) resultHash)
    readiness := n.readiness.taskStarted
    outbox := n.outbox ++ [.jobResult result] }

/-- Is this node the executor of the spec? -/
def elected (c : Ctx W) (n : Node W) (spec : JobSpec) : Bool :=
  spec.submitter ≠ c.localPeerId && shouldExecute c.localPeerId spec n.peerRegistry

/-- `handle_tasks_message`. -/
def handleTasksMessage (c : Ctx W) (clock : Clock) (n : Node W) (m : Message) : Node W :=
  match admitSpec c clock n m.data with
  | (n₁, none) => n₁
  | (n₁, some spec) => if elected c n₁ spec then executeSpec c clock n₁ spec else n₁

/-! ## `parseh.verify.v1` -/

/-- Decode, authenticate, rate-limit and record a result. -/
def admitJobResult (c : Ctx W) (clock : Clock) (n : Node W) (body : Bytes) :
    Node W × Option JobResult :=
  match c.x.resultCbor.decode body with
  | none => (n, none)
  | some result =>
    match n.peerRegistry.verifyingKey result.executor with
    | none => (bufferMessage clock n result.executor (tagJobResult :: body) (some tagJobResult), none)
    | some key =>
      match result.verifySignature c.x key with
      | .error _ => (n, none)
      | .ok () =>
        let (exceeded, bucket) := (n.rateLimit result.executor).record (unixNow clock.wall)
        let n₁ := { n with rateLimit := fun p => if p = result.executor then bucket else n.rateLimit p }
        if exceeded then (n₁, none)
        else
          match n₁.shared.recordResult c.x result (Clock.unixI64 clock) with
          | .error _ => (n₁, none)
          | .ok shared => ({ n₁ with shared }, some result)

/-- Open the quorum of an admitted result unless it is open. -/
def openQuorum (clock : Clock) (n : Node W) (specHash resultHash : ContentHash) : Node W :=
  { n with quorums :=
      match n.quorums.get resultHash with
      | (some _, quorums) => quorums
      | (none, quorums) => quorums.put resultHash (freshQuorum clock specHash resultHash) }

/-- `handle_inbound_job_result`. -/
def handleInboundJobResult (c : Ctx W) (clock : Clock) (n : Node W) (body : Bytes) : Node W :=
  match admitJobResult c clock n body with
  | (n₁, none) => n₁
  | (n₁, some result) => openQuorum clock n₁ result.specHash (result.contentHash c.x)

/-- Decode, authenticate and record a vote; the key it verified under is kept. -/
def admitVerification (c : Ctx W) (clock : Clock) (n : Node W) (body : Bytes) :
    Node W × Option (JobVerification × VerifyingKey) :=
  match c.x.verificationCbor.decode body with
  | none => (n, none)
  | some v =>
    match n.peerRegistry.verifyingKey v.verifier with
    | none =>
      (bufferMessage clock n v.verifier (tagJobVerification :: body) (some tagJobVerification), none)
    | some key =>
      match v.verifySignature c.x key with
      | .error _ => (n, none)
      | .ok () =>
        match n.shared.recordVerification c.x v (Clock.unixI64 clock) with
        | .error _ => (n, none)
        | .ok shared => ({ n with shared }, some (v, key))

/-- The weight of a vote: the reputation as `u32`, the floor if it is negative. -/
def voteWeight (reputation : Int) : UInt32 :=
  if reputation < 0 then probationaryRepFloor else UInt32.ofNat reputation.toNat

/-- Add an admitted vote to the open quorum of its result, if there is one. -/
def slotVote (x : Externals W) (n : Node W) (v : JobVerification) (key : VerifyingKey) : Node W :=
  { n with quorums := n.quorums.getMut v.resultHash fun oq =>
      { oq with quorum := (oq.quorum.addVerification x v
          (voteWeight (n.shared.reputationOf v.verifier)) key).2 } }

/-- `handle_inbound_verification`. -/
def handleInboundVerification (c : Ctx W) (clock : Clock) (n : Node W) (body : Bytes) : Node W :=
  match admitVerification c clock n body with
  | (n₁, none) => n₁
  | (n₁, some (v, key)) => slotVote c.x n₁ v key

/-- `handle_verify_message`. -/
def handleVerifyMessage (c : Ctx W) (clock : Clock) (n : Node W) (m : Message) : Node W :=
  match m.data with
  | [] => n
  | tag :: body =>
    if tag = tagJobResult then handleInboundJobResult c clock n body
    else if tag = tagJobVerification then handleInboundVerification c clock n body
    else n

/-! ## The finalise tick -/

/-- Close one quorum as of the tick, unless it was closed before. -/
def tryClose (c : Ctx W) (clock : Clock) (oq : OpenQuorum W) : Option (FinalisedQuorum W) :=
  if oq.finalised then none
  else oq.quorum.tryFinalise c.x clock.wall (unixNow clock.wall) c.localPeerId c.signingKey

/-- The quorums the tick closes, in the iteration order of the cache. -/
def finalisedResults (c : Ctx W) (clock : Clock) (n : Node W) :
    List (ContentHash × Quorum W × FinalisedQuorum W) :=
  n.quorums.entries.rows.filterMap fun e =>
    (tryClose c clock e.2).map fun f => (e.1, e.2.quorum, f)

/-- Mark what closes, then drop everything marked. -/
def dropClosed (c : Ctx W) (clock : Clock) (quorums : LruCache ContentHash (OpenQuorum W)) :
    LruCache ContentHash (OpenQuorum W) :=
  (quorums.mapValues fun oq =>
    if (tryClose c clock oq).isSome then { oq with finalised := true } else oq).retain
      fun e => !e.2.finalised

/-- `apply_and_gossip_reputation` with delta +5. -/
def rewardVerifier (c : Ctx W) (clock : Clock) (relatedHash : ContentHash) (n : Node W)
    (subject : PeerId) : Node W :=
  let delta := StateDelta.unsigned
    (.reputation subject 5 "verifier_agreed" (some relatedHash)) c.localPeerId (unixNow clock.wall)
  { n with
    shared := n.shared.applyReputationDelta subject 5 "verifier_agreed" (some relatedHash)
      (Clock.unixI64 clock)
    outbox := n.outbox ++ [.stateDelta (signDelta c.x delta c.signingKey)] }

/-- Whom the tick rewards for an outcome: the verifiers of the stored `Agreed`
votes of a `Valid` outcome. -/
def rewardedVerifiers (x : Externals W) (shared : SharedState) (resultHash : ContentHash)
    (outcome : JobOutcome W) : List PeerId :=
  match outcome.verdict with
  | .valid .. =>
    match shared.verificationsForResult x resultHash with
    | .ok vs => (vs.filter fun v => v.verdict = .agreed).map (·.verifier)
    | .error _ => []
  | _ => []

/-- Record an outcome and publish it as a signed delta. -/
def publishOutcome (c : Ctx W) (clock : Clock) (n : Node W) (outcome : JobOutcome W) : Node W :=
  let delta := StateDelta.unsigned (.outcome outcome) c.localPeerId (unixNow clock.wall)
  { n with
    shared := n.shared.orKeep (n.shared.recordOutcome c.x outcome (Clock.unixI64 clock))
    outbox := n.outbox ++ [.stateDelta (signDelta c.x delta c.signingKey)] }

/-- Publish one outcome, then reward its verifiers. -/
def finaliseOne (c : Ctx W) (clock : Clock) (n : Node W)
    (r : ContentHash × Quorum W × FinalisedQuorum W) : Node W :=
  let outcome := r.2.2.outcome
  let n₁ := publishOutcome c clock n outcome
  let rewarded := rewardedVerifiers c.x n₁.shared r.1 outcome
  let n₂ := rewarded.foldl (rewardVerifier c clock (outcome.contentHash c.x)) n₁
  { n₂ with closed := n₂.closed ++
      [{ resultHash := r.1, quorum := r.2.1, finalised := r.2.2, rewarded, clock }] }

/-- `run_finalise_tick`. -/
def runFinaliseTick (c : Ctx W) (clock : Clock) (n : Node W) : Node W :=
  let results := finalisedResults c clock n
  results.foldl (finaliseOne c clock)
    { n with
      quorums := dropClosed c clock n.quorums
      readiness := results.foldl (fun t _ => t.taskFinished) n.readiness }

/-! ## State sync -/

/-- Persist one synced outcome if its observer is known and its signature holds. -/
def applySyncedOutcome (c : Ctx W) (clock : Clock) (reg : PeerRegistry) (shared : SharedState)
    (outcome : JobOutcome W) : SharedState :=
  match reg.verifyingKey outcome.observedBy with
  | none => shared
  | some key =>
    match outcome.verifySignature c.x key with
    | .error _ => shared
    | .ok () => shared.recordSyncedOutcome c.x outcome (Clock.unixI64 clock)

/-- The envelope check of a sync response, made only for a known responder. -/
def syncEnvelopeOk (c : Ctx W) (reg : PeerRegistry) (r : StateSyncResponse W) : Bool :=
  match reg.verifyingKey r.responder with
  | some key => (r.verifySignature c.x key).isOk
  | none => true

/-- `apply_state_sync_response`: a known responder's bad envelope is dropped
whole; otherwise every outcome is judged by its own signature. -/
def applyStateSyncResponse (c : Ctx W) (clock : Clock) (n : Node W) (r : StateSyncResponse W) :
    Node W :=
  if syncEnvelopeOk c n.peerRegistry r then
    { n with shared := r.outcomes.foldl (applySyncedOutcome c clock n.peerRegistry) n.shared }
  else n

/-! ## Steps and events -/

inductive Action (W : Type)
  | gossip (topic : Topic) (m : Message)
  | finaliseTick
  | drain
  | prune
  | stateSyncResponse (r : StateSyncResponse W)

/-- An action with the clock reading it is taken at. -/
structure Step (W : Type) where
  clock : Clock
  action : Action W

/-- Take the ready messages out of the buffer. -/
def drainBuffer (clock : Clock) (n : Node W) : List PendingMessage × Node W :=
  let (ready, _, verifyBuffer) := n.verifyBuffer.drainReady clock.mono
    fun p => (n.peerRegistry.verifyingKey p).isSome
  (ready, { n with verifyBuffer })

/-- One atomic step of the node. -/
def step (c : Ctx W) (n : Node W) (s : Step W) : Node W :=
  match s.action with
  | .gossip .caps m =>
    { n with peerRegistry := handleCapsMessage c.x s.clock n.peerRegistry m }
  | .gossip .tasks m => handleTasksMessage c s.clock n m
  | .gossip .verify m => handleVerifyMessage c s.clock n m
  -- `handle_state_delta_message` only logs
  | .gossip .stateDeltas _ => n
  | .finaliseTick => runFinaliseTick c s.clock n
  | .drain => (drainBuffer s.clock n).2
  | .prune => { n with peerRegistry := (n.peerRegistry.pruneExpired (unixNow s.clock.wall)).2 }
  | .stateSyncResponse r => applyStateSyncResponse c s.clock n r

/-- The message a buffered one is replayed as. -/
def PendingMessage.replay (p : PendingMessage) : Action W :=
  .gossip (if p.tag.isNone then .tasks else .verify) ⟨some p.publisher, p.payload⟩

/-- `drain_verify_buffer`: replay every ready message; `later i` is the clock
when the `i`-th is handled. -/
def drainVerifyBuffer (c : Ctx W) (clock : Clock) (later : Nat → Clock) (n : Node W) : Node W :=
  let (ready, n₁) := drainBuffer clock n
  ready.zipIdx.foldl (fun n p =>
    let m : Message := ⟨some p.1.publisher, p.1.payload⟩
    match p.1.tag with
    | none => handleTasksMessage c (later p.2) n m
    | some _ => handleVerifyMessage c (later p.2) n m) n₁

/-- An event of the node's loop. -/
inductive Event (W : Type)
  | single (s : Step W)
  | bufferTick (clock : Clock) (later : Nat → Clock)

def handleEvent (c : Ctx W) (n : Node W) : Event W → Node W
  | .single s => step c n s
  | .bufferTick clock later => drainVerifyBuffer c clock later n

/-- A buffer tick is a drain followed by one step for every replayed message. -/
theorem drainVerifyBuffer_eq_run (c : Ctx W) (clock : Clock) (later : Nat → Clock) (n : Node W) :
    drainVerifyBuffer c clock later n =
      run (step c) n (⟨clock, .drain⟩ ::
        (drainBuffer clock n).1.zipIdx.map fun p => ⟨later p.2, p.1.replay⟩) := by
  rw [run_cons, run, List.foldl_map]
  unfold drainVerifyBuffer
  refine List.foldl_ext _ _ _ fun n p _ => ?_
  cases ht : p.1.tag <;> simp [step, PendingMessage.replay, ht]

/-- **The loop refines the steps.**  Whatever events a node handles, its state is
reached by atomic steps. -/
theorem events_eq_run (c : Ctx W) (n : Node W) (es : List (Event W)) :
    ∃ as, run (handleEvent c) n es = run (step c) n as := by
  induction es generalizing n with
  | nil => exact ⟨[], rfl⟩
  | cons e es ih =>
    obtain ⟨as, has⟩ := ih (handleEvent c n e)
    cases e with
    | single s => exact ⟨s :: as, has⟩
    | bufferTick clock later =>
      refine ⟨(⟨clock, .drain⟩ ::
        (drainBuffer clock n).1.zipIdx.map fun p => ⟨later p.2, p.1.replay⟩) ++ as, ?_⟩
      rw [run_append, ← drainVerifyBuffer_eq_run]
      exact has

/-- The node is reached by some run. -/
def Reachable (c : Ctx W) (n : Node W) : Prop :=
  ∃ clock listeners shared as, n = run (step c) (Node.start c clock listeners shared) as

end Quorums

end Parseh.Miner
