import Parseh.Miner.StateSync
import Parseh.Shared.Timestamps

/-!
# What a state-sync answer holds

`build_state_sync_response` clamps the count, asks the store for one row more
than that, and tells from the extra row whether something was left out.

* `buildStateSyncResponse_answer`: the answer to an authenticated request within
  its quota is the first rows of the query;
* `buildStateSyncResponse_refused`: every other request gets nothing;
* `stateSync_answer_exact`: over any store without timestamps from `2^63` on, the
  answer is the newest outcomes asked for, and `truncated` says whether there
  were more.
-/

namespace Parseh.Miner

open Parseh.Lib Parseh.Wire Parseh.Core Parseh.Shared

variable {W : Type}

/-! ## The quota -/

/-- Six requests were counted in a window of sixty seconds that is still open. -/
def OverQuota (b : RateBucket) (now : UInt64) : Prop :=
  now.toNat < b.windowStartedAt.toNat + 60 ∧ 6 ≤ b.count.toNat

instance (b : RateBucket) (now : UInt64) : Decidable (OverQuota b now) :=
  inferInstanceAs (Decidable (_ ∧ _))

theorem recordWithCap_iff_overQuota {b : RateBucket} {now : UInt64} :
    (b.recordWithCap now stateSyncMaxRequestsPerWindow).1 = true ↔ OverQuota b now := by
  by_cases hopen : now.toNat < b.windowStartedAt.toNat + 60
  · have hwin : ¬ now.toNat - b.windowStartedAt.toNat ≥ rateLimitWindowMs / 1000 := by
      have : rateLimitWindowMs / 1000 = 60 := rfl
      omega
    have hcap : stateSyncMaxRequestsPerWindow.toNat = 6 := rfl
    have hcount : (UInt32.ofNat (min (b.count.toNat + 1) (2 ^ 32 - 1))).toNat =
        min (b.count.toNat + 1) (2 ^ 32 - 1) := UInt32.toNat_ofNat_of_lt (by simp)
    simp only [RateBucket.recordWithCap, if_neg hwin, decide_eq_true_iff, gt_iff_lt,
      UInt32.lt_iff_toNat_lt, hcount, hcap, OverQuota]
    omega
  · rw [recordWithCap_expired (by omega), OverQuota]
    simp [hopen]

/-! ## One answer -/

variable {c : Ctx W} {clock : Clock} {r : Responder} {request : StateSyncRequest}

/-- A request that is answered from the store. -/
structure Admitted (c : Ctx W) (clock : Clock) (r : Responder) (request : StateSyncRequest) :
    Prop where
  known : ∃ key, r.peerRegistry.verifyingKey request.requester = some key ∧
    request.verifySignature c.x key = .ok ()
  withinQuota : ¬ OverQuota (r.stateSyncRateLimit request.requester) (unixNow clock.wall)

/-- The number of outcomes a request can get. -/
def answerLimit (request : StateSyncRequest) : Nat := min request.maxOutcomes.toNat 500

theorem buildStateSyncResponse_answer (h : Admitted c clock r request)
    (hmax : 1 ≤ request.maxOutcomes.toNat) {os : List (JobOutcome W)}
    (hok : r.shared.outcomesSince c.x request.sinceUnix
      (UInt64.ofNat (answerLimit request + 1)) = .ok os) :
    (buildStateSyncResponse c clock r request).1.outcomes = os.take (answerLimit request) ∧
      (buildStateSyncResponse c clock r request).1.truncated =
        decide (answerLimit request < os.length) := by
  obtain ⟨key, hkey, hver⟩ := h.known
  have hquota : ((r.stateSyncRateLimit request.requester).recordWithCap (unixNow clock.wall)
      stateSyncMaxRequestsPerWindow).1 = false := by
    rw [← Bool.not_eq_true, recordWithCap_iff_overQuota]
    exact h.withinQuota
  have hlimit : min request.maxOutcomes.toNat stateSyncHardCeiling.toNat = answerLimit request :=
    rfl
  have hpos : answerLimit request ≠ 0 := by
    rw [answerLimit]
    omega
  unfold buildStateSyncResponse
  simp only [hkey, hver, hquota, hlimit, hpos, hok, Bool.false_eq_true, if_false]
  exact ⟨rfl, rfl⟩

/-- A request that is not admitted gets no outcome. -/
theorem buildStateSyncResponse_refused (h : ¬ Admitted c clock r request) :
    (buildStateSyncResponse c clock r request).1.outcomes = [] := by
  unfold buildStateSyncResponse
  dsimp only
  split
  · rfl
  · next key hkey =>
    split
    · rfl
    · next hver =>
      have hover : ((r.stateSyncRateLimit request.requester).recordWithCap (unixNow clock.wall)
          stateSyncMaxRequestsPerWindow).1 = true := by
        rw [recordWithCap_iff_overQuota]
        by_contra hquota
        exact h ⟨⟨key, hkey, hver⟩, hquota⟩
      rw [if_pos hover]
      rfl

/-! ## Exact answers -/

/-- What the answer to a request over a store holds. -/
structure AnswerExact (c : Ctx W) (clock : Clock) (r : Responder) (request : StateSyncRequest) :
    Prop where
  admitted : Admitted c clock r request → 1 ≤ request.maxOutcomes.toNat →
    request.sinceUnix.toNat < 2 ^ 63 →
    ∃ all : List (JobOutcome W),
      (∀ o, o ∈ all ↔
        SharedState.HoldsOutcome c.x r.shared o ∧ request.sinceUnix ≤ o.finalisedAt) ∧
      all.Pairwise (fun a b => toLex (-(a.finalisedAt.toNat : Int), (a.contentHash c.x).key) <
        toLex (-(b.finalisedAt.toNat : Int), (b.contentHash c.x).key)) ∧
      (buildStateSyncResponse c clock r request).1.outcomes =
        all.take (min request.maxOutcomes.toNat 500) ∧
      ((buildStateSyncResponse c clock r request).1.truncated = true ↔
        min request.maxOutcomes.toNat 500 < all.length)
  unknown : r.peerRegistry.verifyingKey request.requester = none →
    (buildStateSyncResponse c clock r request).1.outcomes = []
  badSignature : ∀ key, r.peerRegistry.verifyingKey request.requester = some key →
    request.verifySignature c.x key ≠ .ok () →
    (buildStateSyncResponse c clock r request).1.outcomes = []
  overQuota : OverQuota (r.stateSyncRateLimit request.requester) (unixNow clock.wall) →
    (buildStateSyncResponse c clock r request).1.outcomes = []

/-- **Answers.**  Over a store filled by any writer calls, whose outcomes were all
finalised before second `2^63`, every admitted request gets the first outcomes of
its window, newest first and by hash within a second, and learns whether there
were more; every other request gets none. -/
theorem stateSync_answer_exact {calls : List (Call W)}
    (hround : ∀ call ∈ calls, ∀ o, call.Carries o →
      c.x.outcomeCbor.decode (c.x.outcomeCbor.encode o) = some o)
    (hr : r.shared = run (SharedState.write c.x) .empty calls)
    (hfinal : ∀ o, SharedState.HoldsOutcome c.x r.shared o → o.finalisedAt.toNat < 2 ^ 63)
    (clock : Clock) (request : StateSyncRequest) : AnswerExact c clock r request where
  admitted := by
    intro hadm hmax hsince
    rw [hr] at hfinal
    have hside : ∀ o, SharedState.HoldsOutcome c.x (run (SharedState.write c.x) .empty calls) o →
        SharedState.SameSide request.sinceUnix o.finalisedAt :=
      fun o ho => iff_of_true hsince (hfinal o ho)
    obtain ⟨all, hdec, hmem, hsorted⟩ := SharedState.exists_decoded_of_sameSide hround hside
    have hlt : answerLimit request + 1 < 2 ^ 63 := by
      rw [answerLimit]
      omega
    have hok := SharedState.outcomesSince_of_decoded hdec (UInt64.ofNat (answerLimit request + 1))
    rw [SharedState.sqlLimit_ofNat hlt, ← hr] at hok
    obtain ⟨hout, htrunc⟩ := buildStateSyncResponse_answer hadm hmax hok
    rw [← hr] at hmem
    refine ⟨all, hmem, hsorted, ?_, ?_⟩
    · rw [hout, List.take_take, Nat.min_eq_left (Nat.le_succ _)]
      rfl
    · -- the extra row is there exactly when the window is longer than the limit
      rw [htrunc, decide_eq_true_iff, List.length_take, answerLimit]
      omega
  unknown hnone := buildStateSyncResponse_refused fun h => by
    obtain ⟨key, hkey, -⟩ := h.known
    rw [hnone] at hkey
    cases hkey
  badSignature key hkey hbad := buildStateSyncResponse_refused fun h => by
    obtain ⟨key', hkey', hver⟩ := h.known
    rw [hkey] at hkey'
    cases hkey'
    exact hbad hver
  overQuota hover := buildStateSyncResponse_refused fun h => h.withinQuota hover

/-- A request of peer 2 for one outcome. -/
def pagedRequest : StateSyncRequest :=
  StateSyncRequest.newSigned pagedCtx.x 0 1 (peerOf 2) 0 (keyOf 2)

/-- Two outcomes are held and one is asked for. -/
theorem paged_answer_exact : Admitted pagedCtx ⟨0, 0⟩ (pagedResponder 2) pagedRequest ∧
    (pagedResponder 2).shared.outcomes.rows.length = 2 ∧
    AnswerExact pagedCtx ⟨0, 0⟩ (pagedResponder 2) pagedRequest := by
  refine ⟨⟨⟨(keyOf 2).verifyingKey, by decide +kernel, by decide +kernel⟩, by decide +kernel⟩,
    by decide +kernel,
    stateSync_answer_exact (pagedCalls_round 2) (pagedResponder_shared 2) ?_
      ⟨0, 0⟩ pagedRequest⟩
  rintro o ⟨row, hrow, hdec⟩
  have hall : ∀ row ∈ (pagedResponder 2).shared.outcomes.rows,
      ∀ o ∈ pagedCtx.x.outcomeCbor.decode row.outcomeCbor, o.finalisedAt.toNat < 2 ^ 63 := by
    decide +kernel
  exact hall row hrow o hdec

end Parseh.Miner
