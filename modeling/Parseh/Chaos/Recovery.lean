import Parseh.Chaos.Mesh
import Parseh.Chaos.Snapshot
import Parseh.Miner.SyncAnswer

/-!
# Catching up after a partition

Gossip that was dropped does not come again, so a healed node asks every connected
peer for the outcomes of the time it was cut off.  `recovery_round` says what such a
round brings: the snapshot afterwards shows what it showed before and, of every
responder, exactly the stored outcomes of the window whose observer's signature the
node can check.

The harness answers like the miner with an empty rate bucket
(`buildStateSyncResponse_eq`), so the results about the miner's answers carry over.
-/

namespace Parseh.Chaos

open Parseh.Lib Parseh.Wire Parseh.Core Parseh.Shared Parseh.Verify Parseh.Miner NodeLoop

variable {W : Type}

/-! ## Answering -/

/-- The miner's responder with the store of this node and no requests counted. -/
def NodeLoop.responder (n : NodeLoop W) : Responder :=
  ⟨n.registry, n.shared, fun _ => {}⟩

theorem not_overQuota_fresh (now : UInt64) : ¬ OverQuota {} now := by
  rintro ⟨-, h⟩
  exact absurd h (by decide)

/-- The harness answers as the miner does on the first request. -/
theorem buildStateSyncResponse_eq (c : Ctx W) (clock : Clock) (n : NodeLoop W)
    (request : StateSyncRequest) :
    n.buildStateSyncResponse c clock request =
      (Miner.buildStateSyncResponse c.toCtx clock n.responder request).1 := by
  have hfresh : (RateBucket.recordWithCap {} (unixNow clock.wall)
      stateSyncMaxRequestsPerWindow).1 = false := by
    rw [← Bool.not_eq_true, recordWithCap_iff_overQuota]
    exact not_overQuota_fresh _
  unfold NodeLoop.buildStateSyncResponse Miner.buildStateSyncResponse
  dsimp only [responder]
  cases hkey : n.registry.verifyingKey request.requester with
  | none => rfl
  | some key =>
    dsimp only
    cases hsig : request.verifySignature c.x key with
    | error e => rfl
    | ok u =>
      dsimp only
      rw [hfresh, if_neg Bool.false_ne_true]
      split
      · rfl
      · cases n.shared.outcomesSince c.x request.sinceUnix
          (UInt64.ofNat (min request.maxOutcomes.toNat stateSyncHardCeiling.toNat + 1)) <;> rfl

/-- The request of `issue_state_sync`. -/
def syncRequest (c : Ctx W) (clock : Clock) (since : UInt64) : StateSyncRequest :=
  StateSyncRequest.newSigned c.x since stateSyncHardCeiling c.localPeerId (unixNow clock.wall)
    c.signingKey

/-- The store holds the outcome, finalised at `since` or later. -/
def NodeLoop.HoldsSince (x : Externals W) (n : NodeLoop W) (since : UInt64) (o : JobOutcome W) :
    Prop :=
  ∃ row ∈ n.shared.outcomeRowsSince since, x.outcomeCbor.decode row.outcomeCbor = some o

/-- An answer to a request the responder can check holds the whole window, if that has
at most five hundred outcomes. -/
theorem mem_answer_iff {c : Ctx W} (clock : Clock) {n : NodeLoop W} {request : StateSyncRequest}
    (hknown : ∃ key, n.registry.verifyingKey request.requester = some key ∧
      request.verifySignature c.x key = .ok ())
    (hmax : request.maxOutcomes = stateSyncHardCeiling)
    (hread : ∀ r ∈ n.shared.outcomes.rows, ∃ o, c.x.outcomeCbor.decode r.outcomeCbor = some o)
    (hfew : (n.shared.outcomeRowsSince request.sinceUnix).length ≤ 500) (o : JobOutcome W) :
    o ∈ (n.buildStateSyncResponse c clock request).outcomes ↔
      n.HoldsSince c.x request.sinceUnix o := by
  have hadmitted : Admitted c.toCtx clock n.responder request :=
    ⟨hknown, not_overQuota_fresh _⟩
  have hlimit : answerLimit request = 500 := by
    rw [answerLimit, hmax]
    rfl
  have hrows : SharedState.sqlLimit (UInt64.ofNat (answerLimit request + 1))
      (n.shared.outcomeRowsSince request.sinceUnix) =
        n.shared.outcomeRowsSince request.sinceUnix := by
    rw [hlimit, SharedState.sqlLimit_ofNat (by decide)]
    exact List.take_of_length_le (by omega)
  have hok : n.shared.outcomesSince c.x request.sinceUnix
      (UInt64.ofNat (answerLimit request + 1)) =
      .ok ((n.shared.outcomeRowsSince request.sinceUnix).filterMap
        fun r => c.x.outcomeCbor.decode r.outcomeCbor) := by
    unfold SharedState.outcomesSince
    rw [hrows]
    apply SharedState.mapM_okOr_of_isSome
    intro r hr
    obtain ⟨o, ho⟩ := hread r (SharedState.mem_outcomeRowsSince.mp hr).1
    rw [ho]
    rfl
  have hmaxpos : 1 ≤ request.maxOutcomes.toNat := by
    rw [hmax]
    decide
  obtain ⟨hout, -⟩ := buildStateSyncResponse_answer hadmitted hmaxpos hok
  have hlen := List.length_filterMap_le (fun r => c.x.outcomeCbor.decode r.outcomeCbor)
    (n.shared.outcomeRowsSince request.sinceUnix)
  rw [buildStateSyncResponse_eq, hout, hlimit, List.take_of_length_le (by omega),
    List.mem_filterMap]
  rfl

/-! ## Applying -/

/-- The answer of `j` to the request of `i`. -/
def Mesh.answer (c : MeshCtx W) (clock : PeerId → Clock) (since : UInt64) (m : Mesh W)
    (i j : PeerId) : StateSyncResponse W :=
  (m.node j).buildStateSyncResponse (c.ctx j) (clock j) (syncRequest (c.ctx i) (clock i) since)

/-- `j` can check the request and answer it in full, and `i` takes the answer. -/
structure Answers (c : MeshCtx W) (clock : PeerId → Clock) (since : UInt64) (m : Mesh W)
    (i j : PeerId) : Prop where
  known : ∃ key, (m.node j).registry.verifyingKey i = some key ∧
    (syncRequest (c.ctx i) (clock i) since).verifySignature c.x key = .ok ()
  readable : ∀ r ∈ (m.node j).shared.outcomes.rows,
    ∃ o, c.x.outcomeCbor.decode r.outcomeCbor = some o
  few : ((m.node j).shared.outcomeRowsSince since).length ≤ 500
  envelope : syncEnvelopeOk (c.ctx i).toCtx (m.node i).registry (m.answer c clock since i j) = true

/-- The answer holds the window of the responder. -/
theorem Answers.mem_iff {c : MeshCtx W} {clock : PeerId → Clock} {since : UInt64} {m : Mesh W}
    {i j : PeerId} (h : Answers c clock since m i j) (o : JobOutcome W) :
    o ∈ (m.answer c clock since i j).outcomes ↔ (m.node j).HoldsSince c.x since o := by
  have hmax : (syncRequest (c.ctx i) (clock i) since).maxOutcomes = stateSyncHardCeiling := rfl
  have hsince : (syncRequest (c.ctx i) (clock i) since).sinceUnix = since := rfl
  have hiff := mem_answer_iff (c := c.ctx j) (clock j) (n := m.node j) h.known hmax h.readable
    (hsince ▸ h.few) o
  rw [hsince] at hiff
  exact hiff

end Parseh.Chaos
